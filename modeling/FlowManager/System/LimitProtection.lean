import FlowManager.System.OnFile
import Mathlib.Data.Rat.Floor

/-!
# The limit of an order, end to end

`submit_order` takes a price that need not be whole, and the book gets `int(price)`. The book
trades an order only with orders whose limits cross its own, so a buy never meets a sell booked
above its price. For a sell the conversion goes the wrong way: it lowers the limit, the order meets
buys booked below its price, and the fill reports the lowered one. And `_dispatch_rejection` reports
the price 0 for an order that the broker gives up, whatever has become of it.

`limit_kept_iff` says when the limit of an order is kept, after any calls before and after its own:
exactly if its own call keeps it (`KeepsOwnLimit`) and so does every later one
(`KeepsRestingLimit`). The order is known by its broker id, since a client id can be used again. The
tape and the confirmations only grow, so one call keeps the limit if and only if what the call adds
is within it.
-/

namespace FlowManager.System

open FlowManager.Lib FlowManager.Lib.PriceTime FlowManager.Book FlowManager.Broker
  FlowManager.Server

/-! ## Limits -/

/-- A price no worse than the limit `p`: a buyer pays no more, and a seller gets no less. -/
def NotWorse (sideIsBuy : Bool) (p price : ℚ) : Prop :=
  if sideIsBuy = true then price ≤ p else p ≤ price

/-- Whether a price is no worse than another is decided. -/
instance (sideIsBuy : Bool) (p price : ℚ) : Decidable (NotWorse sideIsBuy p price) :=
  inferInstanceAs (Decidable (if sideIsBuy = true then price ≤ p else p ≤ price))

/-- An order of the other side, booked at a price no worse than the limit `p`. -/
structure Submission.MayMeet (σ : Submission) (p : ℚ) (x : OrderTerms) : Prop where
  side : x.side = if σ.sideIsBuy then .Sell else .Buy
  price : NotWorse σ.sideIsBuy p ((x.price.toNat : ℤ) : ℚ)

/-- Every trade in the book is between two booked orders, and if one of them has the broker id `b`,
then against one that it may meet. -/
def TradesKept (σ : Submission) (p : ℚ) (b : ℤ) (server : ServerState) : Prop :=
  ∀ t ∈ tapeOf server, ∃ bid ∈ server.bookings, ∃ ask ∈ server.bookings,
    t.Between bid.terms ask.terms ∧
      ((bid.terms.orderId.toNat : ℤ) = b → σ.MayMeet p ask.terms) ∧
      ((ask.terms.orderId.toNat : ℤ) = b → σ.MayMeet p bid.terms)

/-- The rejections that a call passes on. They carry no broker id. -/
def rejectionsOf (L : Libraries) (s : BrokerAndServer) (e : Event) :
    List TradeConfirmationMessage :=
  ((after L s e).confirmations.drop s.confirmations.length).filter fun c => c.status = .REJECTED

/-- A confirmation of the order with the broker id `b`: it carries the id, or it is one of `own`. -/
def ConfirmsOrder (b : ℤ) (own : List TradeConfirmationMessage) (s : BrokerAndServer)
    (c : TradeConfirmationMessage) : Prop :=
  c ∈ s.confirmations ∧ c.orderId = b ∨ c ∈ own

/-- Every confirmation of the order reports a price no worse than `p`. -/
def ReportsKept (σ : Submission) (p : ℚ) (b : ℤ) (own : List TradeConfirmationMessage)
    (s : BrokerAndServer) : Prop :=
  ∀ c, ConfirmsOrder b own s c → ∃ price, c.price = .finite price ∧ NotWorse σ.sideIsBuy p price

/-- The limit `p` of the order has been kept so far. -/
def LimitKept (σ : Submission) (p : ℚ) (b : ℤ) (own : List TradeConfirmationMessage)
    (s : BrokerAndServer) : Prop :=
  ∃ server, s.orderBook = some server ∧ TradesKept σ p b server ∧ ReportsKept σ p b own s

/-! ## The calls that keep it -/

/-- A sell whose limit is lowered when it is made whole. -/
def Submission.Lowered (σ : Submission) (p : ℚ) : Prop :=
  σ.sideIsBuy = false ∧ (⌊p⌋ : ℚ) ≠ p

/-- The call that submits the order keeps its limit `p`. -/
structure KeepsOwnLimit (σ : Submission) (p : ℚ) (s : BrokerAndServer) (e : Event) : Prop where
  /-- Its reply is lost only if it is a buy or asks for nothing. -/
  answered : s.lockHeld = false → e.delivery = .lost → σ.sideIsBuy = true ∨ p = 0
  /-- With a lowered limit it gets only to orders that are booked above the lowered limit, and its
  fills are not reported or for nothing. -/
  incoming : σ.Lowered p → ∀ server o r, σ.Sends s server o → ReachesNow server o r →
    (σ.clientOrderId = "" ∨ MovesNothing o r) ∧ ⌊p⌋ < (r.terms.price.toNat : ℤ)

/-- A later call keeps the limit `p` of the order: while it rests with a lowered limit, no order gets
to it but one that is booked above the lowered limit, and the fill is not reported or for nothing. -/
def KeepsRestingLimit (σ : Submission) (p : ℚ) (b : ℤ) (s : BrokerAndServer) (e : Event) : Prop :=
  σ.Lowered p → ∀ σ' ∈ submission? e.call, ∀ server o r, σ'.Sends s server o →
    ReachesNow server o r → (r.terms.orderId.toNat : ℤ) = b →
      (e.delivery = .lost ∨ σ.clientOrderId = "" ∨ MovesNothing o r) ∧ ⌊p⌋ < (o.price.toNat : ℤ)

/-! ## Prices -/

section prices

variable {σ : Submission} {p : ℚ} {x y : OrderTerms}

/-- A price that is not negative is rounded down. -/
theorem pyInt_of_nonneg (hp : 0 ≤ p) : pyInt (.finite p) = .ok ⌊p⌋ := by
  unfold pyInt
  dsimp only
  rw [if_pos hp]
  rfl

/-- The limit itself is within the limit. -/
theorem notWorse_self (sideIsBuy : Bool) (p : ℚ) : NotWorse sideIsBuy p p := by
  unfold NotWorse
  split_ifs <;> exact le_refl p

/-- The price 0 is a good one for a buyer. -/
theorem notWorse_zero_iff (hp : 0 ≤ p) :
    NotWorse σ.sideIsBuy p 0 ↔ σ.sideIsBuy = true ∨ p = 0 := by
  unfold NotWorse
  split_ifs with hside
  · simp [hside, hp]
  · simp [hside, hp.ge_iff_eq']

/-- A lowered limit is not 0, -/
theorem Submission.Lowered.ne_zero (h : σ.Lowered p) : p ≠ 0 := by
  rintro rfl
  exact h.2 (by simp)

/-- and the price 0 is worse. -/
theorem Submission.Lowered.not_zero (h : σ.Lowered p) : ¬(σ.sideIsBuy = true ∨ p = 0) := by
  rintro (hbuy | hzero)
  · exact Bool.false_ne_true (h.1.symm.trans hbuy)
  · exact h.ne_zero hzero

/-- A lowered limit is a worse price, and a whole or a buy's is not. -/
theorem notWorse_floor_iff : NotWorse σ.sideIsBuy p ⌊p⌋ ↔ ¬σ.Lowered p := by
  have hle := Int.floor_le p
  unfold NotWorse Submission.Lowered
  rcases hside : σ.sideIsBuy with _ | _
  · simp only [Bool.false_eq_true, if_false, true_and, not_not]
    exact ⟨fun h => le_antisymm hle h, fun h => h.ge⟩
  · simp [hle]

/-- The terms are those under which the order is booked: its side, and its price made whole. -/
structure Submission.Books (σ : Submission) (p : ℚ) (x : OrderTerms) : Prop where
  side : x.side = if σ.sideIsBuy then .Buy else .Sell
  price : (x.price.toNat : ℤ) = ⌊p⌋

/-- Two prices cross, whichever order is the first. -/
theorem PriceCrosses.symm (h : PriceCrosses x y) (hside : y.side = x.side.opposite) :
    PriceCrosses y x := by
  unfold PriceCrosses at h ⊢
  rw [hside]
  rcases hx : x.side with _ | _ <;> rw [hx] at h <;> exact h

/-- **Against whom the book trades the order**: it may meet them, unless it is a lowered sell and
they are booked at the lowered limit. -/
theorem Submission.Books.mayMeet_iff (h : σ.Books p x) (hside : y.side = x.side.opposite)
    (hcross : PriceCrosses x y) : σ.MayMeet p y ↔ (σ.Lowered p → ⌊p⌋ < (y.price.toNat : ℤ)) := by
  have hx := h.price
  have hfloor := Int.floor_le p
  have hxside := h.side
  unfold PriceCrosses at hcross
  rcases hbuy : σ.sideIsBuy with _ | _
  · rw [hbuy] at hxside
    rw [hxside] at hside hcross
    have hge : ⌊p⌋ ≤ (y.price.toNat : ℤ) := by
      rw [← hx]
      exact_mod_cast UInt32.le_iff_toNat_le.mp hcross
    constructor
    · rintro ⟨-, hnot⟩ ⟨-, hne⟩
      unfold NotWorse at hnot
      rw [hbuy, if_neg Bool.false_ne_true] at hnot
      refine lt_of_le_of_ne hge fun heq => hne ?_
      rw [← heq] at hnot
      exact le_antisymm hfloor hnot
    · intro hlt
      refine ⟨by rw [hbuy]; exact hside, ?_⟩
      unfold NotWorse
      rw [hbuy, if_neg Bool.false_ne_true]
      by_cases hlow : (⌊p⌋ : ℚ) = p
      · rw [← hlow]
        exact_mod_cast hge
      · have habove := Int.add_one_le_iff.mpr (hlt ⟨hbuy, hlow⟩)
        calc p ≤ ⌊p⌋ + 1 := (Int.lt_floor_add_one p).le
          _ ≤ ((y.price.toNat : ℤ) : ℚ) := by exact_mod_cast habove
  · rw [hbuy] at hxside
    rw [hxside] at hside hcross
    have hnot : ¬σ.Lowered p := fun hlow => Bool.false_ne_true (hlow.1.symm.trans hbuy)
    refine ⟨fun _ hlow => absurd hlow hnot, fun _ => ?_⟩
    refine ⟨by rw [hbuy]; exact hside, ?_⟩
    unfold NotWorse
    rw [hbuy, if_pos rfl]
    have hle : (y.price.toNat : ℤ) ≤ ⌊p⌋ := by
      rw [← hx]
      exact_mod_cast UInt32.le_iff_toNat_le.mp hcross
    calc ((y.price.toNat : ℤ) : ℚ) ≤ ⌊p⌋ := by exact_mod_cast hle
      _ ≤ p := hfloor

end prices

/-! ## The order in the book and at the broker -/

/-- It has been passed on that the order was rejected or that some of it was filled. -/
def ReportedOn (p : ℚ) (b : ℤ) (own : List TradeConfirmationMessage) (s : BrokerAndServer) : Prop :=
  ∃ c, ConfirmsOrder b own s c ∧ (c.price = .finite 0 ∨ c.price = .finite (⌊p⌋ : ℚ))

/-- The broker tracks the order, or it has reported on it. -/
def Accounted (σ : Submission) (p : ℚ) (b : ℤ) (own : List TradeConfirmationMessage)
    (s : BrokerAndServer) : Prop :=
  s.brokerToClientIdMap.lookup b = some σ.clientOrderId ∨ ReportedOn p b own s

/-- Where the order with the broker id `b` is, once it has been submitted. -/
structure Located (σ : Submission) (p : ℚ) (b : ℤ) (own : List TradeConfirmationMessage)
    (s : BrokerAndServer) (server : ServerState) : Prop where
  booked : ∀ k ∈ server.bookings, (k.terms.orderId.toNat : ℤ) = b → σ.Books p k.terms
  tracked : ∀ clientOrderId order, s.Tracks b clientOrderId order →
    clientOrderId = σ.clientOrderId ∧ order.price = some (.finite p)
  accounted : ∀ r ∈ restingOrders server.store.sides, (r.terms.orderId.toNat : ℤ) = b →
    Accounted σ p b own s
  positive : 0 < b
  issued : s.lockHeld = false → b ≤ s.brokerOrderIdCounter

section located

variable {σ σ' : Submission} {p : ℚ} {b : ℤ} {own : List TradeConfirmationMessage}
  {s s' : BrokerAndServer} {server server' : ServerState} {price : PyFloat} {n : ℤ} {o : Order}
  {ts : Trades} {ptr : OrderPointer} {store' : Store} {e : Event} {r : Resting OrderTerms}

/-- What has been passed on stays. -/
theorem ReportedOn.mono (h : ReportedOn p b own s)
    (hsub : ∀ c ∈ s.confirmations, c ∈ s'.confirmations) : ReportedOn p b own s' := by
  obtain ⟨c, hc, hprice⟩ := h
  exact ⟨c, hc.imp_left fun hold => ⟨hsub c hold.1, hold.2⟩, hprice⟩

/-- **Neither price of a report on a lowered order is within its limit.** -/
theorem ReportedOn.not_kept (h : ReportedOn p b own s) (hp : 0 ≤ p) (hlow : σ.Lowered p) :
    ¬ReportsKept σ p b own s := by
  intro hkept
  obtain ⟨c, hc, hprice⟩ := h
  obtain ⟨q, hq, hnot⟩ := hkept c hc
  rcases hprice with hzero | hfloor
  · rw [← PyFloat.finite.inj (hzero.symm.trans hq), notWorse_zero_iff hp] at hnot
    exact hlow.not_zero hnot
  · rw [← PyFloat.finite.inj (hfloor.symm.trans hq)] at hnot
    exact notWorse_floor_iff.mp hnot hlow

/-- What is accounted for before the final status is so after it. -/
theorem Accounted.concluded {b' : ℤ} (h : Accounted σ p b own s)
    (hconcludes : Concludes b' price s s') : Accounted σ p b own s' := by
  obtain ⟨cs, hcs, -⟩ := hconcludes.confirmations
  refine h.imp (fun hclient => ?_) fun hreported => hreported.mono fun c hc => ?_
  · rw [hconcludes.clients]
    exact hclient
  · rw [hcs]
    exact List.mem_append_left _ hc

/-- More confirmations of other orders do not matter. -/
theorem reportsKept_congr (cs : List TradeConfirmationMessage)
    (hconf : s'.confirmations = s.confirmations ++ cs)
    (hcs : ∀ c ∈ cs, c.orderId = b → ∃ price, c.price = .finite price ∧
      NotWorse σ.sideIsBuy p price) :
    ReportsKept σ p b own s' ↔ ReportsKept σ p b own s := by
  have hmem : ∀ c, ConfirmsOrder b own s' c ↔ ConfirmsOrder b own s c ∨ c ∈ cs ∧ c.orderId = b := by
    intro c
    unfold ConfirmsOrder
    rw [hconf, List.mem_append]
    tauto
  constructor
  · exact fun hkept c hc => hkept c ((hmem c).mpr (Or.inl hc))
  · intro hkept c hc
    rcases (hmem c).mp hc with hold | ⟨hnew, hid⟩
    · exact hkept c hold
    · exact hcs c hnew hid

/-- The limit is kept exactly if it is kept in the trades and in the reports. -/
theorem limitKept_iff (h : s.orderBook = some server) :
    LimitKept σ p b own s ↔ TradesKept σ p b server ∧ ReportsKept σ p b own s := by
  constructor
  · rintro ⟨server', hserver', hkept⟩
    obtain rfl := Option.some.inj (h.symm.trans hserver')
    exact hkept
  · exact fun hkept => ⟨server, h, hkept⟩

/-- Only the bookings of the server matter. -/
theorem tradesKept_congr (hsame : server'.bookings = server.bookings) :
    TradesKept σ p b server' ↔ TradesKept σ p b server := by
  unfold TradesKept tapeOf
  rw [hsame]

/-! ## One submission -/

namespace Sending

/-- Two bookings under one id are one. -/
theorem booking_eq (h : Sending s server σ' price n o ts ptr store' server') {k k' : Booking}
    (hk : k ∈ server'.bookings) (hk' : k' ∈ server'.bookings)
    (hid : k.terms.orderId = k'.terms.orderId) : k = k' :=
  List.inj_on_of_nodup_map h.onFile_gaveUp.issued.distinct hk hk' hid

/-- **The trades after the call** are within the limit if those before are, and the order of the
call and the orders that it reaches may meet. -/
theorem tradesKept_iff (h : Sending s server σ' price n o ts ptr store' server') :
    TradesKept σ p b server' ↔ TradesKept σ p b server ∧
      ∀ r, ReachesNow server o r →
        ((o.orderId.toNat : ℤ) = b → σ.MayMeet p r.terms) ∧
          ((r.terms.orderId.toNat : ℤ) = b → σ.MayMeet p o.toOrderTerms) := by
  constructor
  · refine fun hkept => ⟨fun t ht => ?_, fun r hr => ?_⟩
    · obtain ⟨bid, hbid, ask, hask, hbetween, hmeets⟩ := hkept t (h.mem_tape.mpr (Or.inl ht))
      -- a trade of before is between orders of before
      obtain ⟨bid', hbid', ask', hask', hbetween'⟩ := h.onFile.between t ht
      obtain rfl := h.booking_eq (h.mem_of_mem hbid') hbid
        (hbetween'.bid_id.symm.trans hbetween.bid_id)
      obtain rfl := h.booking_eq (h.mem_of_mem hask') hask
        (hbetween'.ask_id.symm.trans hbetween.ask_id)
      exact ⟨bid', hbid', ask', hask', hbetween, hmeets⟩
    · obtain ⟨t, ht, hpairs, -⟩ := h.handled.exists_pairs h.onFile.consistent hr
      obtain ⟨k, hk, hterms⟩ := h.booking_of_reached hr
      obtain ⟨bid, hbid, ask, hask, hbetween, hmeets⟩ := hkept t (h.mem_tape.mpr (Or.inr ht))
      rcases h.between hr hpairs with hbetween' | hbetween' <;> rw [← hterms] at hbetween' ⊢
      · obtain rfl := h.booking_eq hbid h.new_mem (hbetween.bid_id.symm.trans hbetween'.bid_id)
        obtain rfl := h.booking_eq hask (h.mem_of_mem hk)
          (hbetween.ask_id.symm.trans hbetween'.ask_id)
        exact hmeets
      · obtain rfl := h.booking_eq hbid (h.mem_of_mem hk)
          (hbetween.bid_id.symm.trans hbetween'.bid_id)
        obtain rfl := h.booking_eq hask h.new_mem (hbetween.ask_id.symm.trans hbetween'.ask_id)
        exact hmeets.symm
  · rintro ⟨hkept, hmeets⟩ t ht
    rcases h.mem_tape.mp ht with ht | ht
    · obtain ⟨bid, hbid, ask, hask, hbetween⟩ := hkept t ht
      exact ⟨bid, h.mem_of_mem hbid, ask, h.mem_of_mem hask, hbetween⟩
    · obtain ⟨r, hr, hpairs, -⟩ := h.handled.pairs h.onFile.consistent ht
      obtain ⟨k, hk, hterms⟩ := h.booking_of_reached hr
      have hmeet := hmeets r hr
      rcases h.between hr hpairs with hbetween | hbetween <;> rw [← hterms] at hbetween hmeet
      · exact ⟨_, h.new_mem, k, h.mem_of_mem hk, hbetween, hmeet⟩
      · exact ⟨k, h.mem_of_mem hk, _, h.new_mem, hbetween, hmeet.symm⟩

section followed

variable (h : Sending s server σ' price n o ts ptr store' server')
  (hbooked : ∀ k ∈ server'.bookings, (k.terms.orderId.toNat : ℤ) = b → σ.Books p k.terms)

include h hbooked

/-- An order that takes part in the call has been booked. -/
theorem books_of_party (hr : ReachesNow server o r) {x : OrderTerms}
    (hx : x = o.toOrderTerms ∨ x = r.terms) (hid : (x.orderId.toNat : ℤ) = b) : σ.Books p x := by
  rcases hx with rfl | rfl
  · exact hbooked _ h.new_mem hid
  · obtain ⟨k, hk, hterms⟩ := h.booking_of_reached hr
    rw [← hterms] at hid ⊢
    exact hbooked k (h.mem_of_mem hk) hid

/-- **The order of the call**, and one that it reaches. -/
theorem mayMeet_reached (hr : ReachesNow server o r) (hid : (o.orderId.toNat : ℤ) = b) :
    σ.MayMeet p r.terms ↔ (σ.Lowered p → ⌊p⌋ < (r.terms.price.toNat : ℤ)) := by
  obtain ⟨-, hside, hcross⟩ := ReachedBy.opposite hr h.onFile.consistent.toWellIndexed
  exact (h.books_of_party hbooked hr (Or.inl rfl) hid).mayMeet_iff hside hcross

/-- **An order that the call reaches**, and the order of the call. -/
theorem mayMeet_incoming (hr : ReachesNow server o r) (hid : (r.terms.orderId.toNat : ℤ) = b) :
    σ.MayMeet p o.toOrderTerms ↔ (σ.Lowered p → ⌊p⌋ < (o.price.toNat : ℤ)) := by
  obtain ⟨-, hside, hcross⟩ := ReachedBy.opposite hr h.onFile.consistent.toWellIndexed
  have hside' : o.side = r.terms.side.opposite := by
    rw [hside]
    cases o.side <;> rfl
  exact (h.books_of_party hbooked hr (Or.inr rfl) hid).mayMeet_iff hside'
    (PriceCrosses.symm hcross hside)

/-- The leg of the order is passed on, if the broker tracks it under a client id. -/
theorem reportedOn_of_moves (hr : ReachesNow server o r) (hmoves : ¬MovesNothing o r)
    {x : OrderTerms} (hx : x = o.toOrderTerms ∨ x = r.terms) (hid : (x.orderId.toNat : ℤ) = b)
    (hclient : (acknowledgedFor s σ' price server').brokerToClientIdMap.lookup b =
      some σ.clientOrderId) (hnamed : σ.clientOrderId ≠ "") :
    ReportedOn p b own ((acknowledgedFor s σ' price server').applyFills (fillInfos ts)) := by
  obtain ⟨fill, hfill, hfid, hpos⟩ := h.exists_fill hr hmoves hx
  obtain ⟨fill', hfill', hfid', c, hc, hconfirms⟩ :=
    exists_report h.acknowledged_keyed hclient hnamed ⟨fill, hfill, hfid.trans hid, hpos⟩
  obtain ⟨r', hr', -, x', hx', hxid, hxprice⟩ := h.exists_party hfill'
  have hbooks := h.books_of_party hbooked hr' hx' (hxid.symm.trans hfid')
  refine ⟨c, Or.inl ⟨hc, hconfirms.orderId.trans hfid'⟩, Or.inr ?_⟩
  rw [hconfirms.price, hxprice, ← hbooks.price]

/-- **What the loop reports of the order** is within its limit if that has not been lowered, if the
order has no client id, or if nothing of it was filled. -/
theorem reportsKept_applyFills_iff
    (hclients : ∀ clientOrderId, (acknowledgedFor s σ' price server').brokerToClientIdMap.lookup b =
      some clientOrderId → clientOrderId = σ.clientOrderId)
    (haccounted : ∀ r, ReachesNow server o r → ∀ x, x = o.toOrderTerms ∨ x = r.terms →
      (x.orderId.toNat : ℤ) = b → Accounted σ p b own (acknowledgedFor s σ' price server'))
    (hp : 0 ≤ p) :
    ReportsKept σ p b own ((acknowledgedFor s σ' price server').applyFills (fillInfos ts)) ↔
      ReportsKept σ p b own s ∧ (σ.Lowered p → ∀ r, ReachesNow server o r →
        ∀ x, x = o.toOrderTerms ∨ x = r.terms → (x.orderId.toNat : ℤ) = b →
          σ.clientOrderId = "" ∨ MovesNothing o r) := by
  obtain ⟨cs, hcs, hfills⟩ :=
    applyFills_confirmations (acknowledgedFor s σ' price server') (fillInfos ts)
  constructor
  · intro hkept
    refine ⟨fun c hc => hkept c (hc.imp_left fun hold =>
      ⟨subset_applyFills (fillInfos ts) hold.1, hold.2⟩), fun hlow r hr x hx hid => ?_⟩
    by_contra hnone
    rw [not_or] at hnone
    rcases haccounted r hr x hx hid with hclient | hreported
    · exact (h.reportedOn_of_moves hbooked hr hnone.2 hx hid hclient hnone.1).not_kept hp hlow hkept
    · exact (hreported.mono fun c hc => subset_applyFills (fillInfos ts) hc).not_kept hp hlow hkept
  · rintro ⟨hkept, hnone⟩
    refine (reportsKept_congr (s := s) _ hcs fun c hc hid => ?_).mpr hkept
    obtain ⟨⟨fill, hfill, hconfirms⟩, hclient, hnamed⟩ := hfills c hc
    obtain ⟨r, hr, hmoves, x, hx, hxid, hxprice⟩ := h.exists_party hfill
    have hxb : (x.orderId.toNat : ℤ) = b := by
      rw [← hxid, ← hconfirms.orderId]
      exact hid
    refine ⟨⌊p⌋, ?_, notWorse_floor_iff.mpr fun hlow => ?_⟩
    · rw [hconfirms.price, hxprice, ← (h.books_of_party hbooked hr hx hxb).price]
    · rw [hid] at hclient
      rcases hnone hlow r hr x hx hxb with hempty | hnothing
      · exact hnamed ((hclients _ hclient).trans hempty)
      · exact hmoves hconfirms.moved hnothing

/-- The broker still accounts for the order after the loop. -/
theorem accounted_applyFills
    (haccounted : Accounted σ p b own (acknowledgedFor s σ' price server')) :
    Accounted σ p b own ((acknowledgedFor s σ' price server').applyFills (fillInfos ts)) := by
  rcases haccounted with hclient | hreported
  · by_cases hnamed : σ.clientOrderId = ""
    · obtain ⟨order, htracks⟩ := h.acknowledged_keyed.exists_tracks hclient
      rw [hnamed] at htracks
      refine Or.inl ?_
      rw [hnamed]
      exact (applyFills_tracks_of_empty htracks _).client
    by_cases hfill : ∃ fill ∈ fillInfos ts, fill.orderIdFilled = b ∧ 0 < fill.tradedQuantity
    · obtain ⟨fill, hfill, hfid, hpos⟩ := hfill
      obtain ⟨r, hr, hmoves, x, hx, hxid, -⟩ := h.exists_party hfill
      exact Or.inr (h.reportedOn_of_moves hbooked hr (hmoves hpos) hx (hxid.symm.trans hfid) hclient
        hnamed)
    · refine Or.inl ((applyFills_client_of_not_filled fun fill hmem hid hpos => ?_).trans hclient)
      exact hfill ⟨fill, hmem, hid, hpos⟩
  · exact Or.inr (hreported.mono fun c hc => subset_applyFills (fillInfos ts) hc)

end followed

end Sending

/-! ## The call that submits the order -/

section own

/-- The rejections among what a call adds. -/
theorem rejectionsOf_eq {L : Libraries} {cs : List TradeConfirmationMessage}
    (hconf : (after L s e).confirmations = s.confirmations ++ cs) :
    rejectionsOf L s e = cs.filter fun c => c.status = .REJECTED := by
  unfold rejectionsOf
  rw [hconf, List.drop_left]

/-- Nothing has traded under the next broker id. -/
theorem OnFile.tradesKept_next (h : OnFile s server) :
    TradesKept σ p (s.brokerOrderIdCounter + 1) server := by
  intro t ht
  obtain ⟨bid, hbid, ask, hask, hbetween⟩ := h.between t ht
  have hlebid := h.issued.le bid hbid
  have hleask := h.issued.le ask hask
  exact ⟨bid, hbid, ask, hask, hbetween, fun hid => by omega, fun hid => by omega⟩

/-- And nothing has been reported under it. -/
theorem OnFile.reportsKept_next_iff (h : OnFile s server) :
    ReportsKept σ p (s.brokerOrderIdCounter + 1) own s ↔
      ∀ c ∈ own, ∃ price, c.price = .finite price ∧ NotWorse σ.sideIsBuy p price := by
  constructor
  · exact fun hkept c hc => hkept c (Or.inr hc)
  · rintro hown c (⟨hc, hid⟩ | hc)
    · have := h.reported c hc
      omega
    · exact hown c hc

namespace Sending

variable (h : Sending s server σ price n o ts ptr store' server')
  (hprice : σ.price = some (.finite p)) (hp : 0 ≤ p) (hp32 : p < 2 ^ 32)

include h hprice hp hp32

/-- **The order is booked** with its side and its price made whole, and nothing else under its id. -/
theorem books_own : ∀ k ∈ server'.bookings,
    (k.terms.orderId.toNat : ℤ) = s.brokerOrderIdCounter + 1 → σ.Books p k.terms := by
  intro k hk hid
  rcases h.mem_bookings.mp hk with hk | rfl
  · have := h.onFile.issued.le k hk
    omega
  · have hn := h.truncated
    obtain rfl := Option.some.inj (hprice.symm.trans h.priced)
    rw [pyInt_of_nonneg hp] at hn
    obtain rfl := Except.ok.inj hn
    have hlt : ⌊p⌋ < 2 ^ 32 := Int.floor_lt.mpr (by exact_mod_cast hp32)
    refine ⟨?_, ?_⟩
    · show o.side = _
      rw [h.order]
      rfl
    · show (o.price.toNat : ℤ) = ⌊p⌋
      rw [h.order]
      exact toNat_ofInt32 (Int.floor_nonneg.mpr hp) hlt

omit hprice hp hp32 in
/-- It reaches orders of other ids. -/
theorem ne_own (hr : ReachesNow server o r) :
    (r.terms.orderId.toNat : ℤ) ≠ s.brokerOrderIdCounter + 1 := by
  have := h.reached_le hr
  omega

/-- **The trades of the call** are within the limit if the orders that it reaches are booked above a
lowered limit. -/
theorem tradesKept_own_iff : TradesKept σ p (s.brokerOrderIdCounter + 1) server' ↔
    (σ.Lowered p → ∀ r, ReachesNow server o r → ⌊p⌋ < (r.terms.price.toNat : ℤ)) := by
  have hmeets : ∀ r, ReachesNow server o r →
      (σ.MayMeet p r.terms ↔ (σ.Lowered p → ⌊p⌋ < (r.terms.price.toNat : ℤ))) := fun r hr =>
    h.mayMeet_reached (h.books_own hprice hp hp32) hr h.id_eq
  rw [h.tradesKept_iff]
  constructor
  · exact fun hkept hlow r hr => (hmeets r hr).mp ((hkept.2 r hr).1 h.id_eq) hlow
  · exact fun hreached => ⟨h.onFile.tradesKept_next, fun r hr =>
      ⟨fun _ => (hmeets r hr).mpr fun hlow => hreached hlow r hr,
        fun hid => absurd hid (h.ne_own hr)⟩⟩

/-- **The reply is lost**: the rejection reports the price 0. -/
theorem limitKept_own_of_lost (hlost : e.delivery = .lost) :
    LimitKept σ p (s.brokerOrderIdCounter + 1) [rejection σ.clientOrderId σ.symbol σ.sideIsBuy]
      (gaveUp s σ price server') ↔ KeepsOwnLimit σ p s e := by
  have hnonneg := h.onFile.counter
  have hreports : ReportsKept σ p (s.brokerOrderIdCounter + 1)
      [rejection σ.clientOrderId σ.symbol σ.sideIsBuy] (gaveUp s σ price server') ↔
        σ.sideIsBuy = true ∨ p = 0 := by
    have hconf : (gaveUp s σ price server').confirmations =
        s.confirmations ++ [rejection σ.clientOrderId σ.symbol σ.sideIsBuy] := rfl
    rw [reportsKept_congr _ hconf, h.onFile.reportsKept_next_iff, List.forall_mem_singleton,
      ← notWorse_zero_iff hp]
    · constructor
      · rintro ⟨q, hq, hnot⟩
        rwa [← PyFloat.finite.inj hq] at hnot
      · exact fun hnot => ⟨0, rfl, hnot⟩
    · intro c hc hid
      rw [List.mem_singleton.mp hc] at hid
      replace hid : (-1 : ℤ) = s.brokerOrderIdCounter + 1 := hid
      omega
  rw [limitKept_iff h.onFile_gaveUp.connected, h.tradesKept_own_iff hprice hp hp32, hreports]
  constructor
  · rintro ⟨-, hgood⟩
    exact ⟨fun _ _ => hgood, fun hlow => absurd hgood hlow.not_zero⟩
  · intro hkeeps
    have hgood := hkeeps.answered h.free hlost
    exact ⟨fun hlow => absurd hgood hlow.not_zero, hgood⟩

/-- **The reply arrives**: the fills report the lowered limit. -/
theorem limitKept_own_of_delivered (hdelivered : e.delivery = .delivered)
    (hconcludes : Concludes (s.brokerOrderIdCounter + 1) price
      ((acknowledgedFor s σ price server').applyFills (fillInfos ts)) s') :
    LimitKept σ p (s.brokerOrderIdCounter + 1) [] s' ↔ KeepsOwnLimit σ p s e := by
  have hnot : ¬e.delivery = .lost := by
    rw [hdelivered]
    rintro ⟨⟩
  have hbooked := h.books_own hprice hp hp32
  obtain rfl := Option.some.inj (h.priced.symm.trans hprice)
  obtain ⟨cs, hcs, hcancels⟩ := hconcludes.confirmations
  have hown : (acknowledgedFor s σ (.finite p) server').brokerToClientIdMap.lookup
      (s.brokerOrderIdCounter + 1) = some σ.clientOrderId := acknowledgedFor_tracks.client
  rw [limitKept_iff (h.onFile_concluded hconcludes).connected,
    h.tradesKept_own_iff hprice hp hp32,
    reportsKept_congr _ hcs fun c hc _ => ⟨p, (hcancels c hc).2.2, notWorse_self _ _⟩,
    h.reportsKept_applyFills_iff hbooked
      (fun c hc => (Option.some.inj (hown.symm.trans hc)).symm) (fun _ _ _ _ _ => Or.inl hown) hp,
    h.onFile.reportsKept_next_iff]
  constructor
  · rintro ⟨habove, -, hnone⟩
    refine ⟨fun _ hlost => absurd hlost hnot, fun hlow server₁ o₁ r hsent hr => ?_⟩
    obtain ⟨rfl, rfl⟩ := h.sends_iff.mp hsent
    exact ⟨hnone hlow r hr _ (Or.inl rfl) h.id_eq, habove hlow r hr⟩
  · intro hkeeps
    have hincoming := fun hlow r hr => hkeeps.incoming hlow server o r (h.sends_iff.mpr ⟨rfl, rfl⟩) hr
    refine ⟨fun hlow r hr => (hincoming hlow r hr).2, fun c hc => absurd hc List.not_mem_nil, ?_⟩
    intro hlow r hr x hx hid
    exact (hincoming hlow r hr).1

/-- Where the order is when its reply has been lost. -/
theorem located_of_lost : Located σ p (s.brokerOrderIdCounter + 1)
    [rejection σ.clientOrderId σ.symbol σ.sideIsBuy] (gaveUp s σ price server') server' := by
  have hnonneg := h.onFile.counter
  refine ⟨h.books_own hprice hp hp32, ?_, fun r _ _ => ?_, by omega, fun _ => le_refl _⟩
  · rintro clientOrderId order ⟨hclient, -⟩
    rw [gaveUp_client, if_pos rfl] at hclient
    cases hclient
  · exact Or.inr ⟨_, Or.inr (List.mem_singleton_self _), Or.inl rfl⟩

/-- Where it is when its reply has arrived. -/
theorem located_of_delivered (hconcludes : Concludes (s.brokerOrderIdCounter + 1) price
      ((acknowledgedFor s σ price server').applyFills (fillInfos ts)) s') :
    Located σ p (s.brokerOrderIdCounter + 1) own s' server' := by
  have hnonneg := h.onFile.counter
  have hbooked := h.books_own hprice hp hp32
  refine ⟨hbooked, ?_, fun r _ _ => ?_, by omega, fun _ => ?_⟩
  · rintro clientOrderId order ⟨hclient, hdetails⟩
    rw [hconcludes.clients] at hclient
    obtain ⟨order₁, hdetails₁, hprice₁⟩ := hconcludes.price_eq hdetails
    obtain ⟨order₂, hdetails₂, hprice₂⟩ := applyFills_price hdetails₁
    have hown : (acknowledgedFor s σ price server').Tracks (s.brokerOrderIdCounter + 1)
      σ.clientOrderId (acknowledgedDetails s σ price) := acknowledgedFor_tracks
    refine ⟨Option.some.inj ((applyFills_client_lookup hclient).symm.trans hown.client), ?_⟩
    rw [hprice₁, hprice₂, ← Option.some.inj (hown.details.symm.trans hdetails₂), ← hprice, h.priced]
    rfl
  · exact (h.accounted_applyFills hbooked (Or.inl acknowledgedFor_tracks.client)).concluded
      hconcludes
  · rw [hconcludes.counter, (applyFills_frame _).1]
    exact le_refl _

end Sending

/-- **The call that submits the order** keeps its limit exactly if `KeepsOwnLimit` says so, and places
it. -/
theorem OnFile.own_step (h : OnFile s server) {L : Libraries}
    (heffect : CallEffect s server e (after L s e)) (hcall : submission? e.call = some σ)
    (hprice : σ.price = some (.finite p)) (hp : 0 ≤ p) (hp32 : p < 2 ^ 32) :
    (LimitKept σ p (s.brokerOrderIdCounter + 1) (rejectionsOf L s e) (after L s e) ↔
        KeepsOwnLimit σ p s e) ∧
      ∃ server', OnFile (after L s e) server' ∧
        Located σ p (s.brokerOrderIdCounter + 1) (rejectionsOf L s e) (after L s e) server' := by
  have hnonneg := h.counter
  generalize hs' : after L s e = s' at heffect ⊢
  have hrejections : ∀ cs, s'.confirmations = s.confirmations ++ cs →
      rejectionsOf L s e = cs.filter fun c => c.status = .REJECTED := by
    intro cs hcs
    rw [← hs'] at hcs
    exact rejectionsOf_eq hcs
  have hsame : ∀ {σ'}, submission? e.call = some σ' → σ' = σ := fun hcall' =>
    Option.some.inj (hcall'.symm.trans hcall)
  rcases heffect with ⟨σ', hcall', hnone⟩ | hheld | ⟨σ', price, hcall', hprice', hnot, -⟩ |
    ⟨hcall', hlost, hsending⟩ | ⟨hcall', hdelivered, hsending, hconcludes⟩ | ⟨_, hcall', -, -⟩
  · rw [hsame hcall', hprice] at hnone
    cases hnone
  · -- the call waits for the lock: no order gets the broker id
    rw [hrejections _ (List.append_nil _).symm]
    have hle : ∀ k ∈ server.bookings, (k.terms.orderId.toNat : ℤ) ≠ s.brokerOrderIdCounter + 1 := by
      intro k hk
      have := h.issued.le k hk
      omega
    refine ⟨⟨fun _ => ⟨fun hfree => ?_, fun _ server₁ o r hsends => ?_⟩, fun _ => ?_⟩, server, h,
      fun k hk hid => absurd hid (hle k hk), ?_, fun r hr hid => ?_, by omega, fun hfree => ?_⟩
    · exact absurd (hheld.symm.trans hfree) Bool.noConfusion
    · exact absurd (hheld.symm.trans hsends.free) Bool.noConfusion
    · exact (limitKept_iff h.connected).mpr ⟨h.tradesKept_next, h.reportsKept_next_iff.mpr
        fun c hc => absurd hc List.not_mem_nil⟩
    · intro clientOrderId order htracks
      have := (h.tracked _ _ htracks.client).2
      omega
    · obtain ⟨k, hk, hterms⟩ := h.resting r hr
      rw [← hterms] at hid
      exact absurd hid (hle k hk)
    · exact absurd (hheld.symm.trans hfree) Bool.noConfusion
  · obtain rfl := hsame hcall'
    obtain rfl := Option.some.inj (hprice.symm.trans hprice')
    exact absurd (pyInt_of_nonneg hp) (hnot _)
  · obtain rfl := hsame hcall'
    rw [hrejections [_] rfl]
    exact ⟨hsending.limitKept_own_of_lost hprice hp hp32 hlost, _, hsending.onFile_gaveUp,
      hsending.located_of_lost hprice hp hp32⟩
  · obtain rfl := hsame hcall'
    obtain ⟨cs, hcs, hcancels⟩ := hconcludes.confirmations
    obtain ⟨cs', hcs', hfills⟩ := applyFills_confirmations _ _
    rw [hcs', List.append_assoc] at hcs
    have hempty : ((cs' ++ cs).filter fun c => c.status = .REJECTED) = [] := by
      rw [List.filter_eq_nil_iff]
      intro c hc
      rw [decide_eq_true_eq]
      rcases List.mem_append.mp hc with hc | hc
      · obtain ⟨⟨fill, -, hconfirms⟩, -⟩ := hfills c hc
        exact hconfirms.status
      · rw [(hcancels c hc).2.1]
        rintro ⟨⟩
    rw [hrejections _ hcs, hempty]
    exact ⟨hsending.limitKept_own_of_delivered hprice hp hp32 hdelivered hconcludes, _,
      hsending.onFile_concluded hconcludes, hsending.located_of_delivered hprice hp hp32 hconcludes⟩
  · cases hcall.symm.trans hcall'

end own

/-! ## Later calls -/

section later

/-- A call that sends nothing keeps the limit. -/
theorem keepsRestingLimit_of_not_sent
    (h : ∀ σ' ∈ submission? e.call, ∀ server o, ¬σ'.Sends s server o) :
    KeepsRestingLimit σ p b s e :=
  fun _ σ' hσ' server o _ hsends => absurd hsends (h σ' hσ' server o)

/-- The broker alone changes, and tracks and has reported of the order what it did. -/
theorem Located.changed (h : Located σ p b own s server)
    (hclient : s'.brokerToClientIdMap.lookup b = s.brokerToClientIdMap.lookup b)
    (hdetails : s'.brokerIdToOrderDetails.lookup b = s.brokerIdToOrderDetails.lookup b)
    (hconf : ∀ c ∈ s.confirmations, c ∈ s'.confirmations)
    (hissued : s'.lockHeld = false → b ≤ s'.brokerOrderIdCounter) :
    Located σ p b own s' server where
  booked := h.booked
  tracked := by
    rintro clientOrderId order ⟨hclient', hdetails'⟩
    exact h.tracked clientOrderId order ⟨hclient.symm.trans hclient', hdetails.symm.trans hdetails'⟩
  accounted := by
    intro r hr hid
    refine (h.accounted r hr hid).imp (fun htracked => ?_) fun hreported => hreported.mono hconf
    exact hclient.trans htracked
  positive := h.positive
  issued := hissued

namespace Sending

variable (h : Sending s server σ' price n o ts ptr store' server')
  (hlocated : Located σ p b own s server)

include h hlocated

/-- The order of the call is another one. -/
theorem ne_of_located : (o.orderId.toNat : ℤ) ≠ b ∧ b ≠ s.brokerOrderIdCounter + 1 := by
  have hid := h.id_eq
  have hle := hlocated.issued h.free
  constructor <;> omega

/-- No booking is added under the broker id. -/
theorem booked_of_located : ∀ k ∈ server'.bookings,
    (k.terms.orderId.toNat : ℤ) = b → σ.Books p k.terms := by
  intro k hk hid
  rcases h.mem_bookings.mp hk with hk | rfl
  · exact hlocated.booked k hk hid
  · exact absurd hid (h.ne_of_located hlocated).1

/-- What rests under the broker id rested before. -/
theorem accounted_of_resting (hr : r ∈ restingOrders server'.store.sides)
    (hid : (r.terms.orderId.toNat : ℤ) = b) : Accounted σ p b own s := by
  rcases h.of_resting hr with hterms | ⟨r', hr', hterms⟩
  · rw [hterms] at hid
    exact absurd hid (h.ne_of_located hlocated).1
  · rw [← hterms] at hid
    exact hlocated.accounted r' hr' hid

/-- The broker accounts for the order still when the loop starts. -/
theorem accounted_acknowledged (haccounted : Accounted σ p b own s) :
    Accounted σ p b own (acknowledgedFor s σ' price server') := by
  refine haccounted.imp (fun hclient => ?_) fun hreported => hreported.mono fun _ hc => hc
  rw [acknowledgedFor_client_lookup, if_neg (h.ne_of_located hlocated).2]
  exact hclient

/-- **The trades of the call** are within the limit if its order is booked above a lowered limit
wherever it gets to the order. -/
theorem tradesKept_later_iff : TradesKept σ p b server' ↔ TradesKept σ p b server ∧
    (σ.Lowered p → ∀ r, ReachesNow server o r → (r.terms.orderId.toNat : ℤ) = b →
      ⌊p⌋ < (o.price.toNat : ℤ)) := by
  have hne := (h.ne_of_located hlocated).1
  have hmeets : ∀ r, ReachesNow server o r → (r.terms.orderId.toNat : ℤ) = b →
      (σ.MayMeet p o.toOrderTerms ↔ (σ.Lowered p → ⌊p⌋ < (o.price.toNat : ℤ))) := fun r hr hid =>
    h.mayMeet_incoming (h.booked_of_located hlocated) hr hid
  rw [h.tradesKept_iff]
  refine and_congr_right fun _ => ⟨fun hkept hlow r hr hid => ?_, fun habove r hr => ⟨?_, ?_⟩⟩
  · exact (hmeets r hr hid).mp ((hkept r hr).2 hid) hlow
  · exact fun hid => absurd hid hne
  · exact fun hid => (hmeets r hr hid).mpr fun hlow => habove hlow r hr hid

omit hlocated in
/-- What it means for the call to keep the limit. -/
theorem keepsRestingLimit_iff (hcall : submission? e.call = some σ') :
    KeepsRestingLimit σ p b s e ↔ (σ.Lowered p → ∀ r, ReachesNow server o r →
      (r.terms.orderId.toNat : ℤ) = b →
        (e.delivery = .lost ∨ σ.clientOrderId = "" ∨ MovesNothing o r) ∧
          ⌊p⌋ < (o.price.toNat : ℤ)) := by
  constructor
  · exact fun hkeeps hlow r hr hid =>
      hkeeps hlow σ' hcall server o r (h.sends_iff.mpr ⟨rfl, rfl⟩) hr hid
  · intro hkeeps hlow σ'' hcall' server₁ o₁ r hsends hr hid
    obtain rfl := Option.some.inj (hcall.symm.trans hcall')
    obtain ⟨rfl, rfl⟩ := h.sends_iff.mp hsends
    exact hkeeps hlow r hr hid

/-- **The reply is lost**: nothing of the order is reported. -/
theorem limitKept_later_of_lost (hcall : submission? e.call = some σ')
    (hlost : e.delivery = .lost) : LimitKept σ p b own (gaveUp s σ' price server') ↔
      LimitKept σ p b own s ∧ KeepsRestingLimit σ p b s e := by
  have hpos := hlocated.positive
  have hreports : ReportsKept σ p b own (gaveUp s σ' price server') ↔ ReportsKept σ p b own s := by
    refine reportsKept_congr [rejection σ'.clientOrderId σ'.symbol σ'.sideIsBuy] rfl
      fun c hc hid => ?_
    rw [List.mem_singleton.mp hc] at hid
    replace hid : (-1 : ℤ) = b := hid
    omega
  rw [limitKept_iff h.onFile_gaveUp.connected, limitKept_iff h.onFile.connected,
    h.tradesKept_later_iff hlocated, hreports, h.keepsRestingLimit_iff hcall]
  constructor
  · rintro ⟨⟨htrades, habove⟩, hreports⟩
    exact ⟨⟨htrades, hreports⟩, fun hlow r hr hid => ⟨Or.inl hlost, habove hlow r hr hid⟩⟩
  · rintro ⟨⟨htrades, hreports⟩, hkeeps⟩
    exact ⟨⟨htrades, fun hlow r hr hid => (hkeeps hlow r hr hid).2⟩, hreports⟩

/-- **The reply arrives**: the fills of the order are reported. -/
theorem limitKept_later_of_delivered (hp : 0 ≤ p) (hcall : submission? e.call = some σ')
    (hdelivered : e.delivery = .delivered)
    (hconcludes : Concludes (s.brokerOrderIdCounter + 1) price
      ((acknowledgedFor s σ' price server').applyFills (fillInfos ts)) s') :
    LimitKept σ p b own s' ↔ LimitKept σ p b own s ∧ KeepsRestingLimit σ p b s e := by
  have hnot : ¬e.delivery = .lost := by
    rw [hdelivered]
    rintro ⟨⟩
  obtain ⟨hne, hb⟩ := h.ne_of_located hlocated
  obtain ⟨cs, hcs, hcancels⟩ := hconcludes.confirmations
  have hclients : ∀ clientOrderId, (acknowledgedFor s σ' price server').brokerToClientIdMap.lookup b =
      some clientOrderId → clientOrderId = σ.clientOrderId := by
    intro clientOrderId hclient
    obtain ⟨order, htracks⟩ := h.acknowledged_keyed.exists_tracks hclient
    exact (hlocated.tracked _ _ ((acknowledgedFor_tracks_of_ne hb).mp htracks)).1
  have haccounted : ∀ r, ReachesNow server o r → ∀ x, x = o.toOrderTerms ∨ x = r.terms →
      (x.orderId.toNat : ℤ) = b → Accounted σ p b own (acknowledgedFor s σ' price server') := by
    rintro r hr x (rfl | rfl) hid
    · exact absurd hid hne
    · exact h.accounted_acknowledged hlocated (hlocated.accounted r
        (ReachedBy.opposite hr h.onFile.consistent.toWellIndexed).1 hid)
  rw [limitKept_iff (h.onFile_concluded hconcludes).connected, limitKept_iff h.onFile.connected,
    h.tradesKept_later_iff hlocated,
    reportsKept_congr _ hcs fun c hc hid => absurd (hid.symm.trans (hcancels c hc).1) hb,
    h.reportsKept_applyFills_iff (h.booked_of_located hlocated) hclients haccounted hp,
    h.keepsRestingLimit_iff hcall]
  constructor
  · rintro ⟨⟨htrades, habove⟩, hreports, hnone⟩
    exact ⟨⟨htrades, hreports⟩, fun hlow r hr hid =>
      ⟨Or.inr (hnone hlow r hr _ (Or.inr rfl) hid), habove hlow r hr hid⟩⟩
  · rintro ⟨⟨htrades, hreports⟩, hkeeps⟩
    refine ⟨⟨htrades, fun hlow r hr hid => (hkeeps hlow r hr hid).2⟩, hreports, ?_⟩
    rintro hlow r hr x (rfl | rfl) hid
    · exact absurd hid hne
    · exact (hkeeps hlow r hr hid).1.resolve_left hnot

/-- The order is where it was when the reply to another is lost, -/
theorem located_later_of_lost : Located σ p b own (gaveUp s σ' price server') server' := by
  have hb := (h.ne_of_located hlocated).2
  have hle := hlocated.issued h.free
  refine ⟨h.booked_of_located hlocated, ?_, fun r hr hid => ?_, hlocated.positive, fun _ => ?_⟩
  · rintro clientOrderId order ⟨hclient, hdetails⟩
    rw [gaveUp_client, if_neg hb] at hclient
    rw [gaveUp_details, if_neg hb] at hdetails
    exact hlocated.tracked _ _ ⟨hclient, hdetails⟩
  · refine (h.accounted_of_resting hlocated hr hid).imp (fun hclient => ?_) fun hreported =>
      hreported.mono fun c hc => List.mem_append_left _ hc
    rw [gaveUp_client, if_neg hb]
    exact hclient
  · show b ≤ s.brokerOrderIdCounter + 1
    omega

/-- and when the reply to another arrives. -/
theorem located_later_of_delivered (hconcludes : Concludes (s.brokerOrderIdCounter + 1) price
      ((acknowledgedFor s σ' price server').applyFills (fillInfos ts)) s') :
    Located σ p b own s' server' := by
  have hb := (h.ne_of_located hlocated).2
  have hle := hlocated.issued h.free
  refine ⟨h.booked_of_located hlocated, ?_, fun r hr hid => ?_, hlocated.positive, fun _ => ?_⟩
  · rintro clientOrderId order ⟨hclient, hdetails⟩
    rw [hconcludes.clients] at hclient
    obtain ⟨order₁, hdetails₁, hprice₁⟩ := hconcludes.price_eq hdetails
    obtain ⟨order₂, hdetails₂, hprice₂⟩ := applyFills_price hdetails₁
    rw [hprice₁, hprice₂]
    exact hlocated.tracked _ _
      ((acknowledgedFor_tracks_of_ne hb).mp ⟨applyFills_client_lookup hclient, hdetails₂⟩)
  · exact (h.accounted_applyFills (h.booked_of_located hlocated) (h.accounted_acknowledged hlocated
      (h.accounted_of_resting hlocated hr hid))).concluded hconcludes
  · rw [hconcludes.counter, (applyFills_frame _).1]
    show b ≤ s.brokerOrderIdCounter + 1
    omega

end Sending

/-- What a cancel passes on under a broker id is the price of the order. -/
theorem CancelStep.confirmations {delivery : Delivery} {clientOrderId : String}
    (hstep : CancelStep s server delivery clientOrderId s') : ∃ cs,
    s'.confirmations = s.confirmations ++ cs ∧
      ∀ c ∈ cs, ∃ order, s.Tracks c.orderId clientOrderId order ∧
        c.price = order.price.getD (.finite 0) := by
  rcases hstep with _ | ⟨b, order, htracks⟩ | ⟨b, order, node, store', -, htracks, -, -⟩ |
    ⟨b, order, node, store', htracks, -, -, -⟩
  · exact ⟨[], (List.append_nil _).symm, fun _ hc => absurd hc List.not_mem_nil⟩
  · exact ⟨[], (List.append_nil _).symm, fun _ hc => absurd hc List.not_mem_nil⟩
  · exact ⟨[], (List.append_nil _).symm, fun _ hc => absurd hc List.not_mem_nil⟩
  · exact ⟨[cancellation clientOrderId b order], rfl, List.forall_mem_singleton.mpr
      ⟨order, htracks, rfl⟩⟩

/-- What a cancel leaves tracked was tracked before, at the same price. -/
theorem CancelStep.tracks {delivery : Delivery} {clientOrderId clientOrderId' : String}
    {order : OrderDetails} (hstep : CancelStep s server delivery clientOrderId s')
    (htracks : s'.Tracks b clientOrderId' order) :
    ∃ order', s.Tracks b clientOrderId' order' ∧ order.price = order'.price := by
  have hrestored : ∀ {b' order' server'}, s.Tracks b' clientOrderId order' →
      (restoredState s b' order' server').Tracks b clientOrderId' order →
        ∃ order'', s.Tracks b clientOrderId' order'' ∧ order.price = order''.price := by
    rintro b' order' server' htracks' ⟨hclient, hdetails⟩
    rw [restoredState_details] at hdetails
    split_ifs at hdetails with hb
    · subst hb
      exact ⟨order', ⟨hclient, htracks'.details⟩, by rw [← Option.some.inj hdetails]⟩
    · exact ⟨order, ⟨hclient, hdetails⟩, rfl⟩
  rcases hstep with _ | ⟨b', order', htracks'⟩ | ⟨b', order', node, store', -, htracks', -, -⟩ |
    ⟨b', order', node, store', htracks', -, -, -⟩
  · exact ⟨order, htracks, rfl⟩
  · exact hrestored htracks' htracks
  · exact hrestored htracks' htracks
  · obtain ⟨hclient, hdetails⟩ := htracks
    replace hclient := (Dict.lookup_erase_ite _ _ _).symm.trans hclient
    rw [cancelledState_details] at hdetails
    split_ifs at hclient hdetails
    exact ⟨order, ⟨hclient, hdetails⟩, rfl⟩

/-- What a cancel leaves resting is tracked afterwards if it was before. -/
theorem CancelStep.client_of_resting {delivery : Delivery} {clientOrderId : String}
    (hstep : CancelStep s server delivery clientOrderId s') (h : OnFile s server)
    (hbook : s'.orderBook = some server') (hr : r ∈ restingOrders server'.store.sides)
    (hid : (r.terms.orderId.toNat : ℤ) = b) :
    s'.brokerToClientIdMap.lookup b = s.brokerToClientIdMap.lookup b := by
  rcases hstep with _ | ⟨b', order, htracks⟩ | ⟨b', order, node, store', -, htracks, -, -⟩ |
    ⟨b', order, node, store', htracks, hnode, hb, hremoved⟩
  · rfl
  · rfl
  · rfl
  · obtain rfl := Option.some.inj hbook
    refine (Dict.lookup_erase_ite _ _ _).trans (if_neg fun heq => ?_)
    have hgone := ((hremoved.mem_restingOrders h.consistent.toWellIndexed hnode).mp hr).2
    exact hgone (UInt64.toNat_inj.mp (by exact_mod_cast hid.trans (heq.trans hb.symm)))

/-- **A cancel** passes on the order's own price, if anything. -/
theorem CancelStep.limitKept_iff {delivery : Delivery} {clientOrderId : String}
    (hstep : CancelStep s server delivery clientOrderId s') (h : OnFile s server)
    (hlocated : Located σ p b own s server) : LimitKept σ p b own s' ↔ LimitKept σ p b own s := by
  obtain ⟨server', honFile, hbookings, -, -⟩ := h.cancelStep hstep
  obtain ⟨cs, hcs, hcancels⟩ := hstep.confirmations
  rw [System.limitKept_iff honFile.connected, System.limitKept_iff h.connected,
    tradesKept_congr hbookings, reportsKept_congr _ hcs]
  rintro c hc rfl
  obtain ⟨order, htracks, hcprice⟩ := hcancels c hc
  refine ⟨p, ?_, notWorse_self _ _⟩
  rw [hcprice, (hlocated.tracked _ _ htracks).2]
  rfl

/-- **A cancel** takes the order out of the book and the maps, or leaves it where it was. -/
theorem CancelStep.located {delivery : Delivery} {clientOrderId : String}
    (hstep : CancelStep s server delivery clientOrderId s') (h : OnFile s server)
    (hlocated : Located σ p b own s server) (hfree : s.lockHeld = false) :
    ∃ server', OnFile s' server' ∧ Located σ p b own s' server' := by
  obtain ⟨server', honFile, hbookings, hsub, hcounter⟩ := h.cancelStep hstep
  obtain ⟨cs, hcs, -⟩ := hstep.confirmations
  refine ⟨server', honFile, ?_, ?_, fun r hr hid => ?_, hlocated.positive, fun _ => ?_⟩
  · rw [hbookings]
    exact hlocated.booked
  · intro clientOrderId' order htracks
    obtain ⟨order', htracks', hsame⟩ := hstep.tracks htracks
    rw [hsame]
    exact hlocated.tracked _ _ htracks'
  · refine (hlocated.accounted r (hsub r hr) hid).imp (fun hclient => ?_) fun hreported =>
      hreported.mono fun c hc => ?_
    · exact (hstep.client_of_resting h honFile.connected hr hid).trans hclient
    · rw [hcs]
      exact List.mem_append_left _ hc
  · rw [hcounter]
    exact hlocated.issued hfree

/-- **A later call** keeps the limit of the order if it was kept and `KeepsRestingLimit` says so, and
leaves the order located. -/
theorem OnFile.later_step (h : OnFile s server) (hlocated : Located σ p b own s server)
    (heffect : CallEffect s server e s') (hp : 0 ≤ p) :
    (LimitKept σ p b own s' ↔ LimitKept σ p b own s ∧ KeepsRestingLimit σ p b s e) ∧
      ∃ server', OnFile s' server' ∧ Located σ p b own s' server' := by
  have hpos := hlocated.positive
  have honFile := heffect.onFile h
  rcases heffect with ⟨σ', hcall, hnone⟩ | hheld | ⟨σ', price, hcall, hprice', hnot, hfree⟩ |
    ⟨hcall, hlost, hsending⟩ | ⟨hcall, hdelivered, hsending, hconcludes⟩ |
    ⟨clientOrderId, hcall, hfree, hstep⟩
  · have hkeeps : KeepsRestingLimit σ p b s e := by
      refine keepsRestingLimit_of_not_sent fun σ'' hσ'' _ _ hsends => ?_
      obtain rfl := Option.some.inj (hcall.symm.trans hσ'')
      obtain ⟨price, n, hsome, -⟩ := hsends.order
      cases hnone.symm.trans hsome
    have honFile' := h.confirm_rejection σ'.clientOrderId σ'.symbol σ'.sideIsBuy
    refine ⟨?_, server, honFile', hlocated.changed rfl rfl (fun _ hc => List.mem_append_left _ hc)
      hlocated.issued⟩
    rw [and_iff_left hkeeps, limitKept_iff h.connected, limitKept_iff honFile'.connected,
      reportsKept_congr [rejection σ'.clientOrderId σ'.symbol σ'.sideIsBuy] rfl]
    intro c hc hid
    rw [List.mem_singleton.mp hc] at hid
    replace hid : (-1 : ℤ) = b := hid
    omega
  · have hkeeps : KeepsRestingLimit σ p b s e := keepsRestingLimit_of_not_sent
      fun _ _ _ _ hsends => absurd (hheld.symm.trans hsends.free) Bool.noConfusion
    exact ⟨(and_iff_left hkeeps).symm, server, h, hlocated⟩
  · have hkeeps : KeepsRestingLimit σ p b s e := by
      refine keepsRestingLimit_of_not_sent fun σ'' hσ'' _ _ hsends => ?_
      obtain rfl := Option.some.inj (hcall.symm.trans hσ'')
      obtain ⟨price₁, n, hsome, hn, -⟩ := hsends.order
      obtain rfl := Option.some.inj (hprice'.symm.trans hsome)
      exact hnot n hn
    obtain ⟨server', honFile', -⟩ := honFile
    obtain rfl := Option.some.inj (h.connected.symm.trans honFile'.connected)
    have hle := hlocated.issued hfree
    have hb : b ≠ s.brokerOrderIdCounter + 1 := by omega
    refine ⟨?_, server, honFile', hlocated.changed ((registeredFor_client b).trans (if_neg hb))
      ((registeredFor_details b).trans (if_neg hb)) (fun _ hc => hc) fun _ => ?_⟩
    · have hreports : ReportsKept σ p b own (registeredFor s σ' price) ↔
          ReportsKept σ p b own s :=
        reportsKept_congr _ (List.append_nil _).symm fun c hc => absurd hc List.not_mem_nil
      rw [and_iff_left hkeeps, limitKept_iff h.connected, limitKept_iff honFile'.connected,
        hreports]
    · show b ≤ s.brokerOrderIdCounter + 1
      omega
  · exact ⟨hsending.limitKept_later_of_lost hlocated hcall hlost, _, hsending.onFile_gaveUp,
      hsending.located_later_of_lost hlocated⟩
  · exact ⟨hsending.limitKept_later_of_delivered hlocated hp hcall hdelivered hconcludes, _,
      hsending.onFile_concluded hconcludes, hsending.located_later_of_delivered hlocated hconcludes⟩
  · have hkeeps : KeepsRestingLimit σ p b s e := by
      refine keepsRestingLimit_of_not_sent fun σ' hσ' => ?_
      cases hcall.symm.trans hσ'
    exact ⟨(hstep.limitKept_iff h hlocated).trans (and_iff_left hkeeps).symm,
      hstep.located h hlocated hfree⟩

end later

end located

/-! ## Any calls -/

section calls

variable {L : Libraries} {es : List Event} {e : Event} {σ : Submission} {p : ℚ}

/-- **All calls**: the invariant and the equivalence, up to the end of the later calls. -/
theorem limit_step (hσ : submission? e.call = some σ) (hprice : σ.price = some (.finite p))
    (hp : 0 ≤ p) (hp32 : p < 2 ^ 32) (es' : List Event) (hfits : FitsAll (es ++ e :: es')) :
    (LimitKept σ p ((afterAll L es).brokerOrderIdCounter + 1) (rejectionsOf L (afterAll L es) e)
        (afterAll L (es ++ e :: es')) ↔
      KeepsOwnLimit σ p (afterAll L es) e ∧ ∀ es₁ e₁, es₁ ++ [e₁] <+: es' →
        KeepsRestingLimit σ p ((afterAll L es).brokerOrderIdCounter + 1)
          (afterAll L (es ++ e :: es₁)) e₁) ∧
      ∃ server, OnFile (afterAll L (es ++ e :: es')) server ∧
        Located σ p ((afterAll L es).brokerOrderIdCounter + 1) (rejectionsOf L (afterAll L es) e)
          (afterAll L (es ++ e :: es')) server := by
  induction es' using List.reverseRecOn with
  | nil =>
      obtain ⟨server, honFile, heffect⟩ := exists_effect L hfits
      have hown := honFile.own_step (L := L) (by rwa [← afterAll_append]) hσ hprice hp hp32
      rw [← afterAll_append] at hown
      refine ⟨hown.1.trans (and_iff_left fun es₁ e₁ hstart => ?_).symm, hown.2⟩
      exact absurd (List.prefix_nil.mp hstart) (by simp)
  | append_singleton es' e' ih =>
      have hsplit : es ++ e :: (es' ++ [e']) = (es ++ e :: es') ++ [e'] := by simp
      rw [hsplit] at hfits ⊢
      obtain ⟨hiff, server, honFile, hlocated⟩ := ih (hfits.of_prefix (List.prefix_append _ _))
      obtain ⟨server', honFile', heffect⟩ := exists_effect L hfits
      obtain rfl := Option.some.inj (honFile.connected.symm.trans honFile'.connected)
      have hlater := honFile.later_step hlocated heffect hp
      refine ⟨hlater.1.trans ?_, hlater.2⟩
      rw [hiff, and_assoc]
      refine and_congr_right fun _ => ⟨?_, fun hkeeps => ⟨fun es₁ e₁ hstart => ?_, ?_⟩⟩
      · rintro ⟨hbefore, hlast⟩ es₁ e₁ hstart
        rcases List.prefix_concat_iff.mp hstart with heq | hstart
        · obtain ⟨rfl, he⟩ := List.append_inj' heq rfl
          obtain rfl := List.singleton_inj.mp he
          exact hlast
        · exact hbefore es₁ e₁ hstart
      · exact hkeeps es₁ e₁ (hstart.trans (List.prefix_append _ _))
      · exact hkeeps es' e' (List.prefix_refl _)

end calls

/-- **When the limit of an order is kept.** The order is submitted after any calls, and followed by any
calls, with any replies lost, however the calls end, and under any client ids. Every trade of the
order was against one booked at a price no worse than its limit and every confirmation of it has
reported a price no worse, if and only if the call that submits it has kept the limit and each later
one as well. They do so if the order is a buy; for a sell, if the reply to it arrives or its limit
is 0, and if the limit is a whole number or no buy gets to the order. (Above the lowered limit one
may get to it, if its reply is lost, if the sell has no client id or if the trade is for nothing.) -/
theorem limit_kept_iff (L : Libraries) (es : List Event) (e : Event) (es' : List Event)
    (σ : Submission) (p : ℚ) (hfits : FitsAll (es ++ e :: es'))
    (hσ : submission? e.call = some σ) (hprice : σ.price = some (.finite p)) (hp : 0 ≤ p)
    (hp32 : p < 2 ^ 32) :
    LimitKept σ p ((afterAll L es).brokerOrderIdCounter + 1) (rejectionsOf L (afterAll L es) e)
        (afterAll L (es ++ e :: es')) ↔
      KeepsOwnLimit σ p (afterAll L es) e ∧ ∀ es₁ e₁, es₁ ++ [e₁] <+: es' →
        KeepsRestingLimit σ p ((afterAll L es).brokerOrderIdCounter + 1)
          (afterAll L (es ++ e :: es₁)) e₁ :=
  (limit_step hσ hprice hp hp32 es' hfits).1

/-- The price 100.5. -/
def fractional : ℚ := ⟨201, 2, by decide, by decide⟩

/-- Two sells rest, the first at the price -1, which the server reads as 4294967295. -/
def sellsRest : List Event :=
  [⟨.submitOrder "b" "AMD" 5 false "GTC" (some (.finite (-1))), .delivered⟩,
    ⟨.submitOrder "b" "AMD" 5 false "GTC" (some (.finite 100)), .delivered⟩]

/-- A buy at 100.5, under the same client id, meets the second. -/
def fractionalBuy : Submission := ⟨"b", "AMD", 7, true, "GTC", some (.finite fractional)⟩

/-- A sell under the empty client id meets what is left of the buy. -/
def laterSell : Event := ⟨.submitOrder "" "AMD" 2 false "GTC" (some (.finite 100)), .lost⟩

/-- The buy order at 100.5 keeps its limit, also in what is filled later. -/
theorem limit_kept_iff_fractional_buy : LimitKept fractionalBuy fractional 3
    (rejectionsOf .nlohmann (afterAll .nlohmann sellsRest)
      ⟨.submitOrder "b" "AMD" 7 true "GTC" (some (.finite fractional)), .delivered⟩)
    (afterAll .nlohmann (sellsRest ++
      ⟨.submitOrder "b" "AMD" 7 true "GTC" (some (.finite fractional)), .delivered⟩ ::
        [laterSell])) := by
  have hbuy : ¬fractionalBuy.Lowered fractional := fun hlow => absurd hlow.1 (by decide)
  refine (limit_kept_iff .nlohmann sellsRest _ [laterSell] fractionalBuy fractional
    ⟨by decide, by decide⟩ rfl rfl (by decide) (by decide)).mpr ⟨⟨fun _ _ => Or.inl rfl, ?_⟩, ?_⟩
  · exact fun hlow => absurd hlow hbuy
  · exact fun es₁ e₁ _ hlow => absurd hlow hbuy

/-- A buy at 100 rests. -/
def buyRests : List Event :=
  [⟨.submitOrder "a" "AMD" 5 true "GTC" (some (.finite 100)), .delivered⟩]

/-- A sell at 100.5 meets it. -/
def fractionalSell : Submission := ⟨"b", "AMD", 5, false, "GTC", some (.finite fractional)⟩

/-- The sell trades at 100, and reports it. -/
theorem limit_kept_fails : ¬∀ L es e es' σ p, FitsAll (es ++ e :: es') →
    submission? e.call = some σ → σ.price = some (.finite p) → 0 ≤ p → p < 2 ^ 32 →
      0 < σ.quantity → σ.quantity < 2 ^ 32 →
        LimitKept σ p ((afterAll L es).brokerOrderIdCounter + 1) (rejectionsOf L (afterAll L es) e)
          (afterAll L (es ++ e :: es')) := by
  intro h
  obtain ⟨server, hserver, -, hreports⟩ := h .nlohmann buyRests
    ⟨.submitOrder "b" "AMD" 5 false "GTC" (some (.finite fractional)), .delivered⟩ []
    fractionalSell fractional ⟨by decide, by decide⟩ rfl rfl (by decide) (by decide) (by decide)
    (by decide)
  obtain ⟨price, hprice, hnot⟩ := hreports
    ⟨2, "b", "AMD", 5, false, .finite 100, .FILLED⟩ (Or.inl ⟨by decide, by decide⟩)
  rw [← PyFloat.finite.inj hprice] at hnot
  revert hnot
  decide

end FlowManager.System
