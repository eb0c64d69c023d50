import FlowManager.Book.OnQueues
import FlowManager.Lib.Merging

/-!
# An order in two parts

Instead of one order a client can send two, one right behind the other, with the same terms and the
quantity divided between them. Nobody else notices (`split_unnoticed`): in any run, before and
after, everybody trades the same with the two parts together as with the whole, gets the same
answers, and sees the same snapshot. A cancel of the whole becomes a cancel of each part.

The invariant is that the queues of the one book are those of the other with the parts grouped
(`Split.Merges`).
-/

namespace FlowManager.Book

open FlowManager.Lib FlowManager.Lib.PriceTime

/-! ## Who has traded what -/

/-- Between whom a trade is, and at which prices. -/
structure Parties where
  bidId : OrderId
  bidPrice : Price
  askId : OrderId
  askPrice : Price
  deriving DecidableEq

/-- Who deals with whom in a trade, and at what limits. -/
def Trade.parties (t : Trade) : Parties :=
  ⟨t.bidTrade.orderId, t.bidTrade.price, t.askTrade.orderId, t.askTrade.price⟩

/-- Between whom a trade is, and for how much. -/
def Trade.deal (t : Trade) : Resting Parties := ⟨t.parties, t.bidTrade.tradedQuantity.toNat⟩

/-- The trades, with neighbours between the same two orders counted as one. -/
def dealings (ts : Trades) : List (Resting Parties) := aggregate id (ts.map Trade.deal)

/-- An order has been taken, or one has been cancelled. -/
def Answer.success : Answer → Bool
  | .added _ submitted => submitted.isSome
  | .cancelled success => success

/-! ## Splitting -/

/-- An order, and the ids and quantities of its parts. -/
structure Split where
  whole : Order
  id₁ : OrderId
  id₂ : OrderId
  q₁ : Quantity
  q₂ : Quantity

namespace Split

variable (S : Split)

/-- A part has the terms of the whole. -/
def part (orderId : OrderId) (quantity : Quantity) : Order :=
  Order.new S.whole.orderType orderId S.whole.side S.whole.price quantity

/-- The first part. -/
abbrev part₁ : Order := S.part S.id₁ S.q₁

/-- The second part. -/
abbrev part₂ : Order := S.part S.id₂ S.q₂

/-- The calls that are made instead of a call. -/
def calls (c : Call) : List Call :=
  if c = .addOrder S.whole then [.addOrder S.part₁, .addOrder S.part₂]
  else if c = .cancelOrder S.whole.orderId then [.cancelOrder S.id₁, .cancelOrder S.id₂]
  else [c]

/-- The id is that of a part. -/
def IsPart (orderId : OrderId) : Prop := orderId = S.id₁ ∨ orderId = S.id₂

/-- Whether an id is that of a part is decided. -/
instance : DecidablePred S.IsPart := fun orderId =>
  inferInstanceAs (Decidable (orderId = S.id₁ ∨ orderId = S.id₂))

/-- The parts make up the whole, and are not empty. -/
structure Valid : Prop where
  fresh : S.whole.remainingQuantity = S.whole.initialQuantity
  sum : S.whole.initialQuantity.toNat = S.q₁.toNat + S.q₂.toNat
  pos₁ : 0 < S.q₁.toNat
  pos₂ : 0 < S.q₂.toNat
  ids : S.id₁ ≠ S.id₂

/-- The order is added at most once, and no other order has its id or that of a part. -/
structure Reserved (cs : List Call) : Prop where
  only : ∀ c ∈ cs, c.orderId = S.whole.orderId ∨ S.IsPart c.orderId →
    c = .addOrder S.whole ∨ c = .cancelOrder S.whole.orderId
  once : cs.count (.addOrder S.whole) ≤ 1

/-- The parts are read as the whole. -/
def readId (orderId : OrderId) : OrderId :=
  if S.IsPart orderId then S.whole.orderId else orderId

/-- A leg, read as one of the whole. -/
def readLeg (l : TradeInfo) : TradeInfo := { l with orderId := S.readId l.orderId }

/-- A trade, read as one of the whole. -/
def read (t : Trade) : Trade := ⟨S.readLeg t.bidTrade, S.readLeg t.askTrade⟩

/-- What the answers tell about everybody else is what the answer to the whole tells. -/
def Tells (a : Answer) (as : List Answer) : Prop :=
  dealings a.trades = dealings ((tape as).map S.read) ∧
    a.success = as.any Answer.success

/-- The terms under which an order is counted. -/
def key (t : OrderTerms) : OrderTerms := if S.IsPart t.orderId then S.whole.toOrderTerms else t

/-- The queues of `A` are those of `B` with the parts grouped. -/
structure Merges (A B : Sides OrderTerms) : Prop where
  queues : ∀ side, queueOf A side = aggregate S.key (queueOf B side)
  price : ∀ side, ∀ r ∈ queueOf B side, S.IsPart r.terms.orderId → r.terms.price = S.whole.price
  whole : ∀ side, ∀ r ∈ queueOf B side, r.terms.orderId = S.whole.orderId →
    S.IsPart r.terms.orderId

/-- Neither the order nor a part is in the queues. -/
structure Waits (q : Sides OrderTerms) : Prop where
  whole : Unused q S.whole.orderId
  part₁ : Unused q S.id₁
  part₂ : Unused q S.id₂

end Split

/-! ## The dealings of an order -/

section dealings

variable {o : OrderTerms} {fills : List (OrderTerms × ℕ)} {ts : Trades}

/-- Between whom a trade of an order with a resting one is. -/
def partiesWith (o x : OrderTerms) : Parties :=
  match o.side with
  | .Buy => ⟨o.orderId, o.price, x.orderId, x.price⟩
  | .Sell => ⟨x.orderId, x.price, o.orderId, o.price⟩

/-- A recorded trade is between the order and the one it meets, for so much. -/
theorem parties_of_records {t : Trade} {x : OrderTerms × ℕ} (h : t.Records (fillOf o x)) :
    t.parties = partiesWith o x.1 ∧ t.bidTrade.tradedQuantity.toNat = x.2 := by
  obtain ⟨q, rfl, hq⟩ := h
  cases hside : o.side <;> simp only [fillOf, hside] at hq <;>
    simp only [fillOf, partiesWith, Trade.parties, Trade.of, hside, hq, and_self]

/-- The deals of recorded fills, read under other ids. -/
theorem deals_of_records (f : Trade → Trade) (g : Parties → Parties)
    (hf : ∀ t, (f t).deal = (t.deal).map g)
    (h : List.Forall₂ Trade.Records ts (fills.map (fillOf o))) :
    (ts.map f).map Trade.deal = (filled fills).map (Resting.map fun x => g (partiesWith o x)) := by
  induction fills generalizing ts with
  | nil =>
      cases h
      rfl
  | cons fill fills ih =>
      cases h with
      | @cons t _ ts _ hrec hrest =>
          obtain ⟨hparties, hqty⟩ := parties_of_records hrec
          have hdeal : t.deal = ⟨partiesWith o fill.1, fill.2⟩ := congrArg₂ Resting.mk hparties hqty
          rw [List.map_cons, List.map_cons, ih hrest, hf, hdeal]
          rfl

/-- The dealings that recorded trades show. -/
theorem dealings_of_records (h : List.Forall₂ Trade.Records ts (fills.map (fillOf o))) :
    dealings ts = aggregate (partiesWith o) (filled fills) := by
  have hdeals := deals_of_records id id (fun _ => rfl) h
  unfold dealings
  rw [List.map_id] at hdeals
  rw [hdeals, aggregate_map]
  rfl

end dealings

/-! ## The invariant -/

section merges

variable {S : Split} {A B : Sides OrderTerms} {o : OrderTerms} {n : ℕ}

namespace Split

/-- A part counts as the whole. -/
theorem key_of_part {t : OrderTerms} (h : S.IsPart t.orderId) : S.key t = S.whole.toOrderTerms :=
  if_pos h

/-- Any other order counts as itself. -/
theorem key_of_not_part {t : OrderTerms} (h : ¬ S.IsPart t.orderId) : S.key t = t := if_neg h

/-- What counts as an order has its id read as the whole's. -/
theorem orderId_key (t : OrderTerms) : (S.key t).orderId = S.readId t.orderId := by
  unfold key readId
  split_ifs <;> rfl

/-- What counts as an order has its price. -/
theorem Merges.price_key (h : S.Merges A B) {side : Side} {r : Resting OrderTerms}
    (hr : r ∈ queueOf B side) : (S.key r.terms).price = r.terms.price := by
  unfold key
  split_ifs with hpart
  · exact (h.price side r hr hpart).symm
  · rfl

/-- An id that neither the order nor a part has. -/
def Foreign (S : Split) (id : OrderId) : Prop := id ≠ S.whole.orderId ∧ ¬ S.IsPart id

/-- A foreign id is read as itself. -/
theorem Foreign.key_ne {id : OrderId} (h : S.Foreign id) {t : OrderTerms} :
    (S.key t).orderId ≠ id ↔ t.orderId ≠ id := by
  unfold key
  split_ifs with hpart
  · exact iff_of_true h.1.symm fun heq => h.2 (heq ▸ hpart)
  · exact Iff.rfl

/-- An id is unused in the one book as the ids read as it are in the other. -/
theorem Merges.unused_iff (h : S.Merges A B) {p : OrderId → Prop} {id : OrderId}
    (hp : ∀ side, ∀ r ∈ queueOf B side, (S.key r.terms).orderId ≠ id ↔ p r.terms.orderId) :
    Unused A id ↔ ∀ side, ∀ r ∈ queueOf B side, p r.terms.orderId := by
  constructor
  · intro hunused side r hr
    obtain ⟨l, hl, hterms⟩ := exists_mem_aggregate S.key hr
    rw [← h.queues] at hl
    rw [← hp side r hr, ← hterms]
    exact hunused side l hl
  · intro hall side l hl
    rw [h.queues] at hl
    obtain ⟨r, hr, hterms⟩ := exists_of_mem_aggregate hl
    rw [← hterms, hp side r hr]
    exact hall side r hr

/-- The other ids are the same. -/
theorem Merges.unused_foreign (h : S.Merges A B) {id : OrderId} (hid : S.Foreign id) :
    Unused A id ↔ Unused B id :=
  h.unused_iff (p := fun id' => id' ≠ id) fun _ _ _ => hid.key_ne

/-- What does not count as the whole is no part. -/
theorem Merges.key_ne_whole (h : S.Merges A B) {side : Side} {r : Resting OrderTerms}
    (hr : r ∈ queueOf B side) :
    (S.key r.terms).orderId ≠ S.whole.orderId ↔ ¬ S.IsPart r.terms.orderId := by
  unfold key
  split_ifs with hpart
  · exact iff_of_false (fun hne => hne rfl) fun hnot => hnot hpart
  · exact iff_of_true (fun heq => hpart (h.whole side r hr heq)) hpart

/-- The order is there if a part is. -/
theorem Merges.unused_whole (h : S.Merges A B) :
    Unused A S.whole.orderId ↔ Unused B S.id₁ ∧ Unused B S.id₂ := by
  rw [h.unused_iff (p := fun id' => ¬ S.IsPart id') fun _ _ hr => h.key_ne_whole hr]
  constructor
  · intro hall
    exact ⟨fun side r hr heq => hall side r hr (.inl heq), fun side r hr heq =>
      hall side r hr (.inr heq)⟩
  · rintro ⟨h₁, h₂⟩ side r hr (heq | heq)
    · exact h₁ side r hr heq
    · exact h₂ side r hr heq

/-! ### Another order -/

/-- **Another order trades the same** with the parts as with the whole. -/
theorem Merges.sweep (h : S.Merges A B) (hpos : ∀ side, Positive (queueOf B side)) (side : Side) :
    (PriceTime.sweep (PriceCrosses o) n (queueOf A side)).left =
        (PriceTime.sweep (PriceCrosses o) n (queueOf B side)).left ∧
      (PriceTime.sweep (PriceCrosses o) n (queueOf A side)).queue =
        aggregate S.key (PriceTime.sweep (PriceCrosses o) n (queueOf B side)).queue ∧
      filled (PriceTime.sweep (PriceCrosses o) n (queueOf A side)).fills =
        aggregate S.key (filled (PriceTime.sweep (PriceCrosses o) n (queueOf B side)).fills) := by
  have hsweep := sweep_aggregate (PriceCrosses o) S.key n (hpos side)
  have hhits : ∀ r ∈ queueOf B side, PriceCrosses o (S.key r.terms) ↔ PriceCrosses o r.terms := by
    intro r hr
    unfold PriceCrosses
    rw [h.price_key hr]
  have hcongr : PriceTime.sweep (fun x => PriceCrosses o (S.key x)) n (queueOf B side) =
      PriceTime.sweep (PriceCrosses o) n (queueOf B side) := sweep_congr_mem hhits
  rw [hcongr, ← h.queues] at hsweep
  exact hsweep

/-- Filing it is filing it among the parts. -/
theorem Merges.file (h : S.Merges A B) (ho : ¬ S.IsPart o.orderId) {left : Option ℕ}
    (hunused : Unused A o.orderId) :
    PriceTime.file (fun x y => BetterPrice o.side x.price y.price) o left (queueOf A o.side) =
      aggregate S.key (PriceTime.file (fun x y => BetterPrice o.side x.price y.price) o left
        (queueOf B o.side)) := by
  have hkey : S.key o = o := key_of_not_part ho
  have hbefore : ∀ r ∈ queueOf B o.side,
      BetterPrice o.side (S.key o).price (S.key r.terms).price ↔
        BetterPrice o.side o.price r.terms.price := by
    intro r hr
    rw [hkey, h.price_key hr]
  have hnew : ∀ r ∈ queueOf B o.side, S.key o ≠ S.key r.terms := by
    intro r hr heq
    obtain ⟨l, hl, hterms⟩ := exists_mem_aggregate S.key hr
    rw [← h.queues] at hl
    refine hunused o.side l hl ?_
    rw [hterms, ← heq, hkey]
  have hfile : PriceTime.file (fun x y => BetterPrice o.side x.price y.price) (S.key o) left
      (aggregate S.key (queueOf B o.side)) =
        aggregate S.key (PriceTime.file (fun x y => BetterPrice o.side x.price y.price) o left
          (queueOf B o.side)) := file_aggregate hbefore hnew
  rw [hkey, ← h.queues] at hfile
  exact hfile

/-- **Another order is taken** by both books alike. -/
theorem Merges.acceptOrder (h : S.Merges A B) (hpos : ∀ side, Positive (queueOf B side))
    (ho : S.Foreign o.orderId) (hA : Unused A o.orderId) :
    S.Merges (Book.acceptOrder o n A).sides (Book.acceptOrder o n B).sides := by
  have hB : Unused B o.orderId := (h.unused_foreign ho).mp hA
  obtain ⟨-, -, hopp, hown⟩ := placeOrder_queues o n A
  obtain ⟨-, -, hopp', hown'⟩ := placeOrder_queues o n B
  obtain ⟨hleft, hqueue, -⟩ := h.sweep (o := o) (n := n) hpos o.side.opposite
  have hold : ∀ side, ∀ r ∈ queueOf (Book.acceptOrder o n B).sides side,
      r.terms = o ∨ ∃ side, ∃ r' ∈ queueOf B side, r'.terms = r.terms := by
    intro side r hr
    refine (mem_acceptOrder_imp (mem_restingOrders_iff_queueOf.mpr ⟨side, hr⟩)).imp_right ?_
    rintro ⟨r', hr', hterms⟩
    obtain ⟨side', hr'⟩ := mem_restingOrders_iff_queueOf.mp hr'
    exact ⟨side', r', hr', hterms⟩
  refine ⟨fun side => ?_, ?_, ?_⟩
  · rcases side_eq_or side o.side with rfl | rfl
    · rw [acceptOrder_own hA, acceptOrder_own hB, hown, hown', hleft]
      split_ifs
      · exact h.file ho.2 hA
      · exact h.queues o.side
    · rw [acceptOrder_opposite hA, acceptOrder_opposite hB, hopp, hopp', hqueue]
  · intro side r hr hpart
    rcases hold side r hr with rfl | ⟨side', r', hr', hterms⟩
    · exact absurd hpart ho.2
    · rw [← hterms] at hpart ⊢
      exact h.price side' r' hr' hpart
  · intro side r hr hwhole
    rcases hold side r hr with rfl | ⟨side', r', hr', hterms⟩
    · exact absurd hwhole ho.1
    · rw [← hterms] at hwhole ⊢
      exact h.whole side' r' hr' hwhole

/-- Who deals with whom, read as the whole's. -/
def readParties (S : Split) (p : Parties) : Parties :=
  { p with bidId := S.readId p.bidId, askId := S.readId p.askId }

/-- Deals of recorded trades, read as the whole's. -/
theorem deals_read {fills : List (OrderTerms × ℕ)} {ts : Trades}
    (h : List.Forall₂ Trade.Records ts (fills.map (fillOf o))) : (ts.map S.read).map Trade.deal =
      (filled fills).map (Resting.map fun x => S.readParties (partiesWith o x)) :=
  deals_of_records S.read S.readParties (fun _ => rfl) h

/-- The partners of another order, read as the whole's. -/
theorem partiesWith_read (ho : ¬ S.IsPart o.orderId) {x : OrderTerms}
    (hprice : (S.key x).price = x.price) :
    S.readParties (partiesWith o x) = partiesWith o (S.key x) := by
  have hread : S.readId o.orderId = o.orderId := if_neg ho
  unfold partiesWith readParties
  rw [orderId_key, hprice]
  cases o.side with
  | Buy => exact congrArg₂ (Parties.mk · _ · _) hread rfl
  | Sell => exact congrArg₂ (Parties.mk · _ · _) rfl hread

/-- **Its dealings are the same.** -/
theorem Merges.dealings (h : S.Merges A B) (hpos : ∀ side, Positive (queueOf B side))
    (hsorted : InOrder B) (ho : ¬ S.IsPart o.orderId) {ts ts' : Trades}
    (hrec : List.Forall₂ Trade.Records ts (Book.acceptOrder o n A).fills)
    (hrec' : List.Forall₂ Trade.Records ts' (Book.acceptOrder o n B).fills) :
    Book.dealings ts = Book.dealings (ts'.map S.read) := by
  obtain ⟨hfills, -, -, -⟩ := placeOrder_queues o n A
  obtain ⟨hfills', -, -, -⟩ := placeOrder_queues o n B
  rw [acceptOrder_fills, hfills] at hrec
  rw [acceptOrder_fills, hfills'] at hrec'
  obtain ⟨-, -, hsame⟩ := h.sweep (o := o) (n := n) hpos o.side.opposite
  rw [dealings_of_records hrec, hsame, aggregate_aggregate, Book.dealings, deals_read hrec',
    aggregate_map]
  refine aggregate_congr_mem fun x hx => ?_
  obtain ⟨⟨t, m⟩, hmem, rfl⟩ := List.mem_map.mp hx
  obtain ⟨r, hr, rfl, -⟩ := exists_reached_of_mem_fills (hsorted.inPriority o) hmem
  exact (partiesWith_read ho (h.price_key hr.mem)).symm

/-! ### The order itself -/

/-- Orders of different terms that are no parts are counted as they are. -/
theorem aggregate_key_eq {rs : List (Resting OrderTerms)}
    (hpart : ∀ r ∈ rs, ¬ S.IsPart r.terms.orderId) (hnodup : (rs.map Resting.terms).Nodup) :
    aggregate S.key rs = rs := by
  have hkey : aggregate S.key rs = aggregate id rs :=
    aggregate_congr_mem fun r hr => key_of_not_part (hpart r hr)
  rw [hkey, aggregate_id_of_nodup hnodup]

/-- No part rests yet. -/
theorem Waits.not_part (h : S.Waits B) {side : Side} {r : Resting OrderTerms}
    (hr : r ∈ queueOf B side) : ¬ S.IsPart r.terms.orderId := by
  rintro (heq | heq)
  · exact h.part₁ side r hr heq
  · exact h.part₂ side r hr heq

/-- As long as the order has not come, the books are the same. -/
theorem Merges.eq_of_waits (h : S.Merges A B) (hwaits : S.Waits B)
    (hnodup : ∀ side, ((queueOf B side).map Resting.terms).Nodup) : A = B :=
  queues_ext fun side => (h.queues side).trans
    (aggregate_key_eq (fun _ hr => hwaits.not_part hr) (hnodup side))

/-- What an order that has come leaves of the queues. -/
theorem acceptOrder_queues (hunused : Unused B o.orderId) :
    queueOf (Book.acceptOrder o n B).sides o.side.opposite =
        (PriceTime.sweep (PriceCrosses o) n (queueOf B o.side.opposite)).queue ∧
      queueOf (Book.acceptOrder o n B).sides o.side =
        if o.orderType = .GoodTillCancel then
          PriceTime.file (fun x y => BetterPrice o.side x.price y.price) o
            (PriceTime.sweep (PriceCrosses o) n (queueOf B o.side.opposite)).left
            (queueOf B o.side)
        else queueOf B o.side := by
  obtain ⟨-, -, hopp, hown⟩ := placeOrder_queues o n B
  rw [acceptOrder_own hunused, acceptOrder_opposite hunused, hopp, hown]
  exact ⟨rfl, rfl⟩

/-- A part hits whom the order hits, and what is left of it goes where the order goes. -/
theorem acceptPart_queues (id : OrderId) (q : Quantity) (hunused : Unused B id) :
    let w := S.whole.toOrderTerms
    queueOf (Book.acceptOrder (S.part id q).toOrderTerms n B).sides w.side.opposite =
        (PriceTime.sweep (PriceCrosses w) n (queueOf B w.side.opposite)).queue ∧
      queueOf (Book.acceptOrder (S.part id q).toOrderTerms n B).sides w.side =
        if w.orderType = .GoodTillCancel then
          PriceTime.file (fun x y => BetterPrice w.side x.price y.price) (S.part id q).toOrderTerms
            (PriceTime.sweep (PriceCrosses w) n (queueOf B w.side.opposite)).left
            (queueOf B w.side)
        else queueOf B w.side := by
  have hqueues := acceptOrder_queues (o := (S.part id q).toOrderTerms) (n := n) hunused
  have hsweep : PriceTime.sweep (PriceCrosses (S.part id q).toOrderTerms) n
      (queueOf B (S.part id q).side.opposite) = PriceTime.sweep (PriceCrosses S.whole.toOrderTerms) n
        (queueOf B S.whole.side.opposite) := sweep_congr (fun _ => Iff.rfl) n _
  rw [hsweep] at hqueues
  exact hqueues

/-- A part meets what the whole would meet. -/
theorem acceptPart_fills (id : OrderId) (q : Quantity) :
    (Book.acceptOrder (S.part id q).toOrderTerms n B).fills =
      (PriceTime.sweep (PriceCrosses S.whole.toOrderTerms) n
        (queueOf B S.whole.side.opposite)).fills.map (fillOf (S.part id q).toOrderTerms) := by
  obtain ⟨hfills, -, -, -⟩ := placeOrder_queues (S.part id q).toOrderTerms n B
  have hsweep : PriceTime.sweep (PriceCrosses (S.part id q).toOrderTerms) n
      (queueOf B (S.part id q).side.opposite) = PriceTime.sweep (PriceCrosses S.whole.toOrderTerms) n
        (queueOf B S.whole.side.opposite) := sweep_congr (fun _ => Iff.rfl) n _
  rw [acceptOrder_fills, hfills, hsweep]

/-- What is filed of the two parts is what is filed of the order. -/
theorem file_of_parts (hS : S.Valid) {own : List (Resting OrderTerms)} {rs : List (Resting OrderTerms)}
    (hpart : ∀ r ∈ own, ¬ S.IsPart r.terms.orderId)
    (hwhole : ∀ r ∈ own, r.terms.orderId ≠ S.whole.orderId)
    (hnodup : (own.map Resting.terms).Nodup) :
    let w := S.whole.toOrderTerms
    let before : OrderTerms → OrderTerms → Prop := fun x y => BetterPrice w.side x.price y.price
    let first := PriceTime.sweep (PriceCrosses w) S.q₁.toNat rs
    let second := PriceTime.sweep (PriceCrosses w) S.q₂.toNat first.queue
    PriceTime.file before w
        (PriceTime.sweep (PriceCrosses w) (S.q₁.toNat + S.q₂.toNat) rs).left own =
      aggregate S.key (PriceTime.file before S.part₂.toOrderTerms second.left
        (PriceTime.file before S.part₁.toOrderTerms first.left own)) := by
  intro w before first second
  have hkey₁ : S.key S.part₁.toOrderTerms = w := key_of_part (.inl rfl)
  have hkey₂ : S.key S.part₂.toOrderTerms = w := key_of_part (.inr rfl)
  have hkey : ∀ r ∈ own, S.key r.terms = r.terms := fun r hr => key_of_not_part (hpart r hr)
  have hnew : ∀ r ∈ own, w ≠ S.key r.terms := by
    intro r hr heq
    rw [hkey r hr] at heq
    exact hwhole r hr (congrArg OrderTerms.orderId heq.symm)
  have hbefore : ∀ r ∈ own, before w (S.key r.terms) ↔ before w r.terms := by
    intro r hr
    rw [hkey r hr]
  have hleft : (PriceTime.sweep (PriceCrosses w) (S.q₁.toNat + S.q₂.toNat) rs).left =
      first.left.elim second.left fun a => some (a + S.q₂.toNat) :=
    (sweep_parts _ hS.pos₂ S.q₁.toNat rs).2.1
  have hgroups := aggregate_key_eq hpart hnodup
  rw [hleft]
  cases hfirst : first.left with
  | none =>
      have hfile : PriceTime.file before (S.key S.part₂.toOrderTerms) second.left
          (aggregate S.key own) =
            aggregate S.key (PriceTime.file before S.part₂.toOrderTerms second.left own) :=
        file_aggregate (by rwa [hkey₂]) (by rwa [hkey₂])
      rw [hkey₂, hgroups] at hfile
      exact hfile
  | some a =>
      have hsecond : second.left = some S.q₂.toNat := by
        show (PriceTime.sweep _ _ first.queue).left = _
        rw [sweep_second_of_left hfirst]
      have hself : ¬ before S.part₂.toOrderTerms S.part₁.toOrderTerms := BetterPrice.irrefl
      have hfile : PriceTime.file before (S.key S.part₁.toOrderTerms) (some (a + S.q₂.toNat))
          (aggregate S.key own) =
            aggregate S.key (PriceTime.file before S.part₂.toOrderTerms (some S.q₂.toNat)
              (PriceTime.file before S.part₁.toOrderTerms (some a) own)) :=
        file_parts (hkey₁.trans hkey₂.symm) hself (by rwa [hkey₁]) (fun _ _ => Iff.rfl)
          (by rwa [hkey₁])
      rw [hkey₁, hgroups] at hfile
      rw [hsecond]
      exact hfile

/-- What has come in its two parts. -/
theorem mem_parts {side : Side} {r : Resting OrderTerms}
    (hr : r ∈ queueOf (Book.acceptOrder S.part₂.toOrderTerms S.q₂.toNat
      (Book.acceptOrder S.part₁.toOrderTerms S.q₁.toNat B).sides).sides side) :
    r.terms = S.part₂.toOrderTerms ∨ r.terms = S.part₁.toOrderTerms ∨
      ∃ side, ∃ r' ∈ queueOf B side, r'.terms = r.terms := by
  rcases mem_acceptOrder_imp (mem_restingOrders_iff_queueOf.mpr ⟨side, hr⟩) with
    heq | ⟨r₁, hr₁, hterms₁⟩
  · exact .inl heq
  · rcases mem_acceptOrder_imp hr₁ with heq | ⟨r₂, hr₂, hterms₂⟩
    · exact .inr (.inl (hterms₁ ▸ heq))
    · obtain ⟨side', hr₂⟩ := mem_restingOrders_iff_queueOf.mp hr₂
      exact .inr (.inr ⟨side', r₂, hr₂, hterms₂.trans hterms₁⟩)

/-- The id of the second part is unused once the first has been accepted. -/
theorem Waits.part₂_unused (h : S.Waits B) (hS : S.Valid) :
    Unused (Book.acceptOrder S.part₁.toOrderTerms S.q₁.toNat B).sides S.id₂ := by
  intro side r hr heq
  rcases mem_acceptOrder_imp (mem_restingOrders_iff_queueOf.mpr ⟨side, hr⟩) with
    hterms | ⟨r', hr', hterms⟩
  · rw [hterms] at heq
    exact hS.ids heq
  · obtain ⟨side', hr'⟩ := mem_restingOrders_iff_queueOf.mp hr'
    exact h.part₂ side' r' hr' (by rw [hterms]; exact heq)

/-- **The order and its parts leave the same queues**, with the parts grouped. -/
theorem Waits.merges (h : S.Waits B) (hS : S.Valid)
    (hnodup : ∀ side, ((queueOf B side).map Resting.terms).Nodup)
    (hnodup' : ∀ side, ((queueOf (Book.acceptOrder S.whole.toOrderTerms
      (S.q₁.toNat + S.q₂.toNat) B).sides side).map Resting.terms).Nodup) :
    S.Merges (Book.acceptOrder S.whole.toOrderTerms (S.q₁.toNat + S.q₂.toNat) B).sides
      (Book.acceptOrder S.part₂.toOrderTerms S.q₂.toNat
        (Book.acceptOrder S.part₁.toOrderTerms S.q₁.toNat B).sides).sides := by
  obtain ⟨hopp, hown⟩ := acceptOrder_queues (n := S.q₁.toNat + S.q₂.toNat) h.whole
  obtain ⟨hopp₁, hown₁⟩ := acceptPart_queues (n := S.q₁.toNat) S.id₁ S.q₁ h.part₁
  obtain ⟨hopp₂, hown₂⟩ := acceptPart_queues (n := S.q₂.toNat) S.id₂ S.q₂ (h.part₂_unused hS)
  refine ⟨fun side => ?_, ?_, ?_⟩
  · rcases side_eq_or side S.whole.side with rfl | rfl
    · have hown₀ : ∀ r ∈ queueOf B S.whole.side, ¬ S.IsPart r.terms.orderId := fun _ hr =>
        h.not_part hr
      rw [hown, hown₂, hown₁, hopp₁]
      split_ifs
      · exact file_of_parts hS hown₀ (h.whole _) (hnodup _)
      · exact (aggregate_key_eq hown₀ (hnodup _)).symm
    · have hopp₀ : ∀ r ∈ queueOf (Book.acceptOrder S.whole.toOrderTerms
          (S.q₁.toNat + S.q₂.toNat) B).sides S.whole.side.opposite, ¬ S.IsPart r.terms.orderId := by
        intro r hr
        rw [hopp] at hr
        obtain ⟨r', hr', hterms, -⟩ := mem_sweep_queue hr
        rw [← hterms]
        exact h.not_part hr'
      have hqueue : (PriceTime.sweep (PriceCrosses S.whole.toOrderTerms) (S.q₁.toNat + S.q₂.toNat)
          (queueOf B S.whole.side.opposite)).queue = _ := (sweep_parts _ hS.pos₂ S.q₁.toNat _).1
      have hsame := aggregate_key_eq hopp₀ (hnodup' _)
      rw [hopp, hqueue] at hsame
      rw [hopp, hqueue, hopp₂, hopp₁, hsame]
  · intro side r hr hpart
    rcases mem_parts hr with heq | heq | ⟨side', r', hr', hterms⟩
    · rw [heq]
      rfl
    · rw [heq]
      rfl
    · rw [← hterms] at hpart
      exact absurd hpart (h.not_part hr')
  · intro side r hr hwhole
    rcases mem_parts hr with heq | heq | ⟨side', r', hr', hterms⟩
    · rw [heq]
      exact .inr rfl
    · rw [heq]
      exact .inl rfl
    · rw [← hterms] at hwhole
      exact absurd hwhole (h.whole side' r' hr')

/-- A part is dealt with as the order. -/
theorem partiesWith_part {id : OrderId} (hid : S.IsPart id) (q : Quantity) {x : OrderTerms}
    (hx : ¬ S.IsPart x.orderId) : S.readParties (partiesWith (S.part id q).toOrderTerms x) =
      partiesWith S.whole.toOrderTerms x := by
  have hown : S.readId id = S.whole.orderId := if_pos hid
  have hother : S.readId x.orderId = x.orderId := if_neg hx
  show S.readParties (partiesWith { S.whole.toOrderTerms with orderId := id, initialQuantity := q } x)
    = _
  unfold partiesWith readParties
  cases S.whole.side with
  | Buy => exact congrArg₂ (Parties.mk · _ · _) hown hother
  | Sell => exact congrArg₂ (Parties.mk · _ · _) hother hown

/-- The deals of a part, read as those of the order. -/
theorem deals_part {id : OrderId} (hid : S.IsPart id) (q : Quantity) {ts : Trades}
    {rs : List (Resting OrderTerms)} (hrs : ∀ r ∈ rs, ¬ S.IsPart r.terms.orderId)
    (hsorted : InPriority (PriceCrosses S.whole.toOrderTerms) rs)
    (hrec : List.Forall₂ Trade.Records ts
      ((PriceTime.sweep (PriceCrosses S.whole.toOrderTerms) n rs).fills.map
        (fillOf (S.part id q).toOrderTerms))) :
    (ts.map S.read).map Trade.deal =
      (filled (PriceTime.sweep (PriceCrosses S.whole.toOrderTerms) n rs).fills).map
        (Resting.map (partiesWith S.whole.toOrderTerms)) := by
  rw [deals_read hrec]
  refine List.map_congr_left fun x hx => ?_
  obtain ⟨⟨t, m⟩, hmem, rfl⟩ := List.mem_map.mp hx
  obtain ⟨r, hr, rfl, -⟩ := exists_reached_of_mem_fills hsorted hmem
  exact congrArg (Resting.mk · m) (partiesWith_part hid q (hrs r hr.mem))

/-- **The parts deal with everybody as the order does.** -/
theorem Waits.dealings (h : S.Waits B) (hS : S.Valid) (hsorted : InOrder B) {ts ts₁ ts₂ : Trades}
    (hrec : List.Forall₂ Trade.Records ts
      (Book.acceptOrder S.whole.toOrderTerms (S.q₁.toNat + S.q₂.toNat) B).fills)
    (hrec₁ : List.Forall₂ Trade.Records ts₁
      (Book.acceptOrder S.part₁.toOrderTerms S.q₁.toNat B).fills)
    (hrec₂ : List.Forall₂ Trade.Records ts₂
      (Book.acceptOrder S.part₂.toOrderTerms S.q₂.toNat
        (Book.acceptOrder S.part₁.toOrderTerms S.q₁.toNat B).sides).fills) :
    Book.dealings ts = Book.dealings ((ts₁ ++ ts₂).map S.read) := by
  obtain ⟨hopp₁, -⟩ := acceptPart_queues (n := S.q₁.toNat) S.id₁ S.q₁ h.part₁
  obtain ⟨hfills, -, -, -⟩ := placeOrder_queues S.whole.toOrderTerms (S.q₁.toNat + S.q₂.toNat) B
  rw [acceptOrder_fills, hfills] at hrec
  rw [acceptPart_fills] at hrec₁ hrec₂
  rw [hopp₁] at hrec₂
  have hpriority : InPriority (PriceCrosses S.whole.toOrderTerms)
      (queueOf B S.whole.side.opposite) := hsorted.inPriority _
  have hpriority₁ : InPriority (PriceCrosses S.whole.toOrderTerms) (PriceTime.sweep
      (PriceCrosses S.whole.toOrderTerms) S.q₁.toNat (queueOf B S.whole.side.opposite)).queue :=
    sweep_queue_pairwise
      (R := fun x y => PriceCrosses S.whole.toOrderTerms y → PriceCrosses S.whole.toOrderTerms x)
      hpriority
  have hdeals₁ := deals_part (.inl rfl) S.q₁ (fun r hr => h.not_part hr) hpriority hrec₁
  have hdeals₂ := deals_part (.inr rfl) S.q₂ (fun r hr => by
    obtain ⟨r', hr', hterms, -⟩ := mem_sweep_queue hr
    rw [← hterms]
    exact h.not_part hr') hpriority₁ hrec₂
  have hgroups := congrArg (aggregate (partiesWith S.whole.toOrderTerms))
    (sweep_parts (PriceCrosses S.whole.toOrderTerms) hS.pos₂ S.q₁.toNat
      (queueOf B S.whole.side.opposite)).2.2
  rw [aggregate_aggregate, aggregate_aggregate] at hgroups
  rw [dealings_of_records hrec]
  refine hgroups.trans ?_
  unfold Book.dealings
  rw [List.map_append, List.map_append, hdeals₁, hdeals₂, ← List.map_append, aggregate_map]
  unfold filled
  rw [List.map_append]
  rfl

/-! ### Cancels -/

/-- Taking orders out of both books. -/
theorem Merges.filter (h : S.Merges A B) {A' B' : Sides OrderTerms} (p p' : OrderTerms → Prop)
    [DecidablePred p] [DecidablePred p']
    (hA : ∀ side, queueOf A' side = (queueOf A side).filter fun r => decide (p' r.terms))
    (hB : ∀ side, queueOf B' side = (queueOf B side).filter fun r => decide (p r.terms))
    (hp : ∀ side, ∀ r ∈ queueOf B side, p' (S.key r.terms) ↔ p r.terms)
    (hnodup : ∀ side, ((queueOf A side).map Resting.terms).Nodup) : S.Merges A' B' where
  queues side := by
    have hterms := hnodup side
    rw [h.queues] at hterms
    rw [hA, hB, h.queues]
    exact filter_aggregate hterms (hp side)
  price side r hr := by
    rw [hB] at hr
    exact h.price side r (List.mem_of_mem_filter hr)
  whole side r hr := by
    rw [hB] at hr
    exact h.whole side r (List.mem_of_mem_filter hr)

/-- Withdrawing a foreign id from both books. -/
theorem Merges.withdraw_foreign (h : S.Merges A B) {id : OrderId} (hid : S.Foreign id)
    (hnodup : ∀ side, ((queueOf A side).map Resting.terms).Nodup) :
    S.Merges (withdraw id A) (withdraw id B) :=
  h.filter (fun t => t.orderId ≠ id) (fun t => t.orderId ≠ id)
    (fun side => queueOf_withdraw id A side) (fun side => queueOf_withdraw id B side)
    (fun _ _ _ => hid.key_ne) hnodup

/-- A cancel of the order is a cancel of its parts. -/
theorem Merges.withdraw_whole (h : S.Merges A B)
    (hnodup : ∀ side, ((queueOf A side).map Resting.terms).Nodup) :
    S.Merges (withdraw S.whole.orderId A) (withdraw S.id₂ (withdraw S.id₁ B)) := by
  refine h.filter (fun t => ¬ S.IsPart t.orderId) (fun t => t.orderId ≠ S.whole.orderId)
    (fun side => queueOf_withdraw _ A side) (fun side => ?_) (fun _ _ hr => h.key_ne_whole hr) hnodup
  rw [queueOf_withdraw, queueOf_withdraw, List.filter_filter]
  refine List.filter_congr fun r _ => ?_
  unfold IsPart
  simp only [← Bool.decide_and, not_or, and_comm]

end Split

end merges

/-! ## Calls -/

section calls

variable {S : Split} {qA qA' qB qB' : QueueState} {a : Answer} {as : List Answer}

/-- A cancel withdraws the id, and answers whether it was there. -/
theorem OnQueues.cancelled {q q' : QueueState} {id : OrderId}
    (h : OnQueues q (.cancelOrder id) a q') :
    a.trades = [] ∧ (a.success = true ↔ ¬ Unused q.queues id) ∧
      q'.queues = withdraw id q.queues := by
  cases h with
  | notFound _ hunused =>
      exact ⟨rfl, iff_of_false Bool.false_ne_true (not_not.mpr hunused),
        (withdraw_of_unused hunused).symm⟩
  | withdrawn _ hused => exact ⟨rfl, iff_of_true rfl hused, rfl⟩

namespace Split

/-- One answer tells what another does if it shows the same dealings. -/
theorem tells_singleton {a' : Answer} (hdealings : dealings a.trades = dealings (a'.trades.map S.read))
    (hsuccess : a.success = a'.success) : S.Tells a [a'] := by
  unfold Tells tape
  simp only [List.flatMap_cons, List.flatMap_nil, List.append_nil, List.any_cons, List.any_nil,
    Bool.or_false]
  exact ⟨hdealings, hsuccess⟩

/-- **The order, and its parts.** -/
theorem Merges.step_whole (h : S.Merges qA.queues qB.queues) (hS : S.Valid)
    (hwaits : S.Waits qB.queues) (hsorted : InOrder qB.queues)
    (hnodup : ∀ side, ((queueOf qB.queues side).map Resting.terms).Nodup)
    (hA : OnQueues qA (.addOrder S.whole) a qA')
    (hnodup' : ∀ side, ((queueOf qA'.queues side).map Resting.terms).Nodup)
    (hB : QueueRun qB [.addOrder S.part₁, .addOrder S.part₂] as qB') :
    S.Tells a as ∧ S.Merges qA'.queues qB'.queues := by
  have hsame : qA.queues = qB.queues := h.eq_of_waits hwaits hnodup
  have hqty : S.whole.remainingQuantity.toNat = S.q₁.toNat + S.q₂.toNat := by
    rw [hS.fresh, hS.sum]
  cases hA with
  | refused _ hused => exact absurd (hsame ▸ hwaits.whole) hused
  | taken _ ts _ hrec =>
      rw [hqty, hsame] at hrec hnodup'
      rw [hqty, hsame]
      rcases hB with _ | ⟨hfirst, _ | ⟨hsecond, _ | _⟩⟩
      cases hfirst with
      | refused _ hused => exact absurd hwaits.part₁ hused
      | taken _ ts₁ _ hrec₁ =>
          cases hsecond with
          | refused _ hused => exact absurd (hwaits.part₂_unused hS) hused
          | taken _ ts₂ _ hrec₂ =>
              refine ⟨⟨?_, rfl⟩, hwaits.merges hS hnodup hnodup'⟩
              unfold tape
              rw [List.flatMap_cons, List.flatMap_cons, List.flatMap_nil, List.append_nil]
              exact hwaits.dealings hS hsorted hrec hrec₁ hrec₂

/-- **A cancel of the order, and of its parts.** -/
theorem Merges.step_cancel (h : S.Merges qA.queues qB.queues) (hS : S.Valid)
    (hnodup : ∀ side, ((queueOf qA.queues side).map Resting.terms).Nodup)
    (hA : OnQueues qA (.cancelOrder S.whole.orderId) a qA')
    (hB : QueueRun qB [.cancelOrder S.id₁, .cancelOrder S.id₂] as qB') :
    S.Tells a as ∧ S.Merges qA'.queues qB'.queues := by
  obtain ⟨htrades, hsuccess, hqueues⟩ := hA.cancelled
  obtain ⟨a₁, q₁, a₂, hfirst, hsecond, rfl⟩ : ∃ a₁ q₁ a₂,
      OnQueues qB (.cancelOrder S.id₁) a₁ q₁ ∧ OnQueues q₁ (.cancelOrder S.id₂) a₂ qB' ∧
        as = [a₁, a₂] := by
    rcases hB with _ | ⟨hfirst, _ | ⟨hsecond, _ | _⟩⟩
    exact ⟨_, _, _, hfirst, hsecond, rfl⟩
  obtain ⟨htrades₁, hsuccess₁, hqueues₁⟩ := hfirst.cancelled
  obtain ⟨htrades₂, hsuccess₂, hqueues₂⟩ := hsecond.cancelled
  have hleft : Unused q₁.queues S.id₂ ↔ Unused qB.queues S.id₂ := by
    rw [hqueues₁]
    unfold Unused
    simp only [queueOf_withdraw, List.mem_filter, decide_eq_true_iff, and_imp]
    constructor
    · intro hall side r hr heq
      exact hall side r hr (by rw [heq]; exact hS.ids.symm) heq
    · intro hall side r hr _
      exact hall side r hr
  refine ⟨⟨?_, ?_⟩, ?_⟩
  · unfold tape
    rw [htrades, List.flatMap_cons, List.flatMap_cons, List.flatMap_nil, htrades₁, htrades₂]
    rfl
  · rw [Bool.eq_iff_iff, hsuccess, h.unused_whole]
    simp only [List.any_cons, List.any_nil, Bool.or_false, Bool.or_eq_true, hsuccess₁, hsuccess₂,
      hleft]
    exact not_and_or
  · rw [hqueues, hqueues₂, hqueues₁]
    exact h.withdraw_whole hnodup

/-- **Another call.** -/
theorem Merges.step_foreign (h : S.Merges qA.queues qB.queues) {c : Call}
    (hc : S.Foreign c.orderId) (hpos : ∀ side, Positive (queueOf qB.queues side))
    (hsorted : InOrder qB.queues)
    (hnodup : ∀ side, ((queueOf qA.queues side).map Resting.terms).Nodup)
    (hA : OnQueues qA c a qA') (hB : QueueRun qB [c] as qB') :
    S.Tells a as ∧ S.Merges qA'.queues qB'.queues := by
  rcases hB with _ | ⟨hstep, _ | _⟩
  have hunused := h.unused_foreign hc
  cases hA with
  | refused o hused =>
      cases hstep with
      | refused => exact ⟨tells_singleton rfl rfl, h⟩
      | taken _ _ hnew => exact absurd (hunused.mpr hnew) hused
  | taken o ts hnew hrec =>
      cases hstep with
      | refused _ hused => exact absurd (hunused.mp hnew) hused
      | taken _ ts' _ hrec' =>
          exact ⟨tells_singleton (h.dealings hpos hsorted hc.2 hrec hrec') rfl,
            h.acceptOrder hpos hc hnew⟩
  | notFound id hnew =>
      cases hstep with
      | notFound => exact ⟨tells_singleton rfl rfl, h⟩
      | withdrawn _ hused => exact absurd (hunused.mp hnew) hused
  | withdrawn id hused =>
      cases hstep with
      | notFound _ hnew => exact absurd (hunused.mpr hnew) hused
      | withdrawn => exact ⟨tells_singleton rfl rfl, h.withdraw_foreign hc hnodup⟩

end Split

end calls

/-! ## Runs -/

section runs

variable {S : Split} {s s' s'' sA sA' sB : Store} {c : Call} {a : Answer} {cs cs' : List Call}
  {as as' : List Answer}

/-- One run of calls after another. -/
theorem CallSteps.append (h : CallSteps s cs as s') (h' : CallSteps s' cs' as' s'') :
    CallSteps s (cs ++ cs') (as ++ as') s'' := by
  induction h with
  | nil s => exact h'
  | cons hstep _ ih => exact .cons hstep (ih h')

/-- Fresh orders leave every order of the book open. -/
theorem CallSteps.allOpen (h : CallSteps s cs as s') (hi : Invariant s) (hopen : AllOpen s)
    (hfresh : ∀ c ∈ cs, c.Fresh) : AllOpen s' := by
  induction h with
  | nil s => exact hopen
  | cons hstep _ ih =>
      obtain ⟨hc, hcs⟩ := List.forall_mem_cons.mp hfresh
      exact ih (hstep.invariant hi) (hstep.depth hi hopen hc).2 hcs

/-- No order is twice in a queue. -/
theorem WellIndexed.terms_nodup (h : WellIndexed s) (side : Side) :
    ((queueOf s.sides side).map Resting.terms).Nodup := by
  have hids := h.nodes.ids_nodup
  rw [Store.nodes, List.map_append, List.nodup_append] at hids
  apply List.Nodup.of_map OrderTerms.orderId
  rw [queueOf_eq_map, List.map_map, List.map_map]
  cases side with
  | Buy => exact hids.1
  | Sell => exact hids.2.1

/-- An id that no order brings does not come. -/
theorem OnQueues.unused {q q' : QueueState} (h : OnQueues q c a q') {id : OrderId}
    (hid : ∀ o, c = .addOrder o → o.orderId ≠ id) (hunused : Unused q.queues id) :
    Unused q'.queues id := by
  intro side r hr heq
  rcases h.mem_imp (mem_restingOrders_iff_queueOf.mpr ⟨side, hr⟩) with
    ⟨o, hc, hterms⟩ | ⟨r', hr', hterms⟩
  · rw [hterms] at heq
    exact hid o hc heq
  · obtain ⟨side', hr'⟩ := mem_restingOrders_iff_queueOf.mp hr'
    rw [← hterms] at heq
    exact hunused side' r' hr' heq

/-- A run brings in no id that none of its calls names. -/
theorem QueueRun.unused {q q' : QueueState} (h : QueueRun q cs as q') {id : OrderId}
    (hid : ∀ o, .addOrder o ∈ cs → o.orderId ≠ id) (hunused : Unused q.queues id) :
    Unused q'.queues id := by
  induction h with
  | nil q => exact hunused
  | cons hstep _ ih =>
      refine ih (fun o ho => hid o (List.mem_cons_of_mem _ ho)) (hstep.unused ?_ hunused)
      rintro o rfl
      exact hid o List.mem_cons_self

namespace Split

/-- The book of the whole and the book of the parts, with `cs` still to come. -/
structure Faces (S : Split) (cs : List Call) (sA sB : Store) : Prop where
  invariant : Invariant sA
  invariant' : Invariant sB
  allOpen : AllOpen sB
  merges : S.Merges sA.sides sB.sides
  waits : .addOrder S.whole ∈ cs → S.Waits sB.sides

/-- Ids that are reserved stay so. -/
theorem Reserved.tail (h : S.Reserved (c :: cs)) : S.Reserved cs where
  only c' hc' := h.only c' (List.mem_cons_of_mem _ hc')
  once := (List.count_le_count_cons).trans h.once

/-- A call is the order, its cancel, or foreign. -/
theorem Reserved.cases (h : S.Reserved (c :: cs)) :
    c = .addOrder S.whole ∨ c = .cancelOrder S.whole.orderId ∨
      (S.Foreign c.orderId ∧ S.calls c = [c]) := by
  by_cases hwhole : c = .addOrder S.whole
  · exact .inl hwhole
  by_cases hcancel : c = .cancelOrder S.whole.orderId
  · exact .inr (.inl hcancel)
  refine .inr (.inr ⟨⟨fun heq => ?_, fun hpart => ?_⟩, ?_⟩)
  · rcases h.only c List.mem_cons_self (.inl heq) with heq | heq
    · exact hwhole heq
    · exact hcancel heq
  · rcases h.only c List.mem_cons_self (.inr hpart) with heq | heq
    · exact hwhole heq
    · exact hcancel heq
  · unfold calls
    rw [if_neg hwhole, if_neg hcancel]

/-- The calls for the parts bring fresh orders. -/
theorem fresh_calls (hS : S.Valid) (hc : c.Fresh) : ∀ c' ∈ S.calls c, c'.Fresh := by
  unfold calls
  split_ifs
  · simp only [List.mem_cons, List.not_mem_nil, or_false, forall_eq_or_imp, forall_eq]
    exact ⟨⟨rfl, hS.pos₁⟩, ⟨rfl, hS.pos₂⟩⟩
  · simp only [List.mem_cons, List.not_mem_nil, or_false, forall_eq_or_imp, forall_eq]
    exact ⟨trivial, trivial⟩
  · simpa using hc

/-- **One call, and the calls instead of it.** -/
theorem Faces.step (h : S.Faces (c :: cs) sA sB) (hS : S.Valid) (hcs : S.Reserved (c :: cs))
    (hfresh : c.Fresh) (hA : CallStep sA c a sA') :
    ∃ as sB', CallSteps sB (S.calls c) as sB' ∧ S.Tells a as ∧ S.Faces cs sA' sB' := by
  obtain ⟨as, sB', -, hB⟩ := calls_steps h.invariant' (S.calls c)
  have hqueueA := hA.onQueues h.invariant
  have hqueueB := hB.queueRun h.invariant'
  have hpos := fun side => h.allOpen.positive side
  have hsorted := h.invariant'.toWellIndexed.inOrder
  have hnodup := h.invariant.toWellIndexed.terms_nodup
  have hnodup' := (hA.invariant h.invariant).toWellIndexed.terms_nodup
  have hnodupB := h.invariant'.toWellIndexed.terms_nodup
  have hstep : S.Tells a as ∧ S.Merges sA'.sides sB'.sides ∧
      (.addOrder S.whole ∈ cs → S.Waits sB'.sides) := by
    rcases hcs.cases with rfl | rfl | ⟨hforeign, hcalls⟩
    · have hcalls : S.calls (.addOrder S.whole) = [.addOrder S.part₁, .addOrder S.part₂] := if_pos rfl
      rw [hcalls] at hqueueB
      obtain ⟨htells, hmerges⟩ := Merges.step_whole h.merges hS (h.waits List.mem_cons_self) hsorted
        hnodupB hqueueA hnodup' hqueueB
      refine ⟨htells, hmerges, fun hmem => ?_⟩
      have honce := hcs.once
      rw [List.count_cons_self] at honce
      have hpos := List.count_pos_iff.mpr hmem
      omega
    · have hcalls : S.calls (.cancelOrder S.whole.orderId) =
          [.cancelOrder S.id₁, .cancelOrder S.id₂] := by
        unfold calls
        rw [if_neg (by simp), if_pos rfl]
      rw [hcalls] at hqueueB
      obtain ⟨htells, hmerges⟩ := Merges.step_cancel h.merges hS hnodup hqueueA hqueueB
      refine ⟨htells, hmerges, fun hmem => ?_⟩
      have hwaits := h.waits (List.mem_cons_of_mem _ hmem)
      have hkeep : ∀ {id}, Unused sB.sides id → Unused sB'.sides id := fun hunused =>
        hqueueB.unused (by simp) hunused
      exact ⟨hkeep hwaits.whole, hkeep hwaits.part₁, hkeep hwaits.part₂⟩
    · rw [hcalls] at hqueueB
      obtain ⟨htells, hmerges⟩ := Merges.step_foreign h.merges hforeign hpos hsorted hnodup hqueueA
        hqueueB
      refine ⟨htells, hmerges, fun hmem => ?_⟩
      have hwaits := h.waits (List.mem_cons_of_mem _ hmem)
      have hkeep : ∀ {id}, c.orderId ≠ id → Unused sB.sides id → Unused sB'.sides id := by
        intro id hne hunused
        refine hqueueB.unused (fun o ho => ?_) hunused
        rw [List.mem_singleton] at ho
        subst ho
        exact hne
      exact ⟨hkeep hforeign.1 hwaits.whole, hkeep (fun heq => hforeign.2 (.inl heq)) hwaits.part₁,
        hkeep (fun heq => hforeign.2 (.inr heq)) hwaits.part₂⟩
  obtain ⟨htells, hmerges, hwaits⟩ := hstep
  exact ⟨as, sB', hB, htells, hA.invariant h.invariant, hB.invariant h.invariant',
    hB.allOpen h.invariant' h.allOpen (fresh_calls hS hfresh), hmerges, hwaits⟩

/-- **A run, and the run with the parts.** -/
theorem Faces.run (h : S.Faces cs sA sB) (hS : S.Valid) (hcs : S.Reserved cs)
    (hfresh : ∀ c ∈ cs, c.Fresh) (hA : CallSteps sA cs as sA') :
    ∃ ass sB', CallSteps sB (cs.flatMap S.calls) ass.flatten sB' ∧
      List.Forall₂ S.Tells as ass ∧ S.Faces [] sA' sB' := by
  induction hA generalizing sB with
  | nil s => exact ⟨[], sB, .nil sB, .nil, h⟩
  | cons hstep _ ih =>
      obtain ⟨hc, hfresh⟩ := List.forall_mem_cons.mp hfresh
      obtain ⟨as₁, sB₁, hsteps, htells, hfaces⟩ := h.step hS hcs hc hstep
      obtain ⟨ass, sB', hrest, hall, hfaces'⟩ := ih hfaces hcs.tail hfresh
      exact ⟨as₁ :: ass, sB', hsteps.append hrest, .cons htells hall, hfaces'⟩

/-- **The snapshots are the same.** -/
theorem Merges.snapshotOf {A B : Sides OrderTerms} (h : S.Merges A B) :
    Book.snapshotOf A = Book.snapshotOf B := by
  have hlevels : ∀ side, levelsShown (queueOf A side) = levelsShown (queueOf B side) := by
    intro side
    unfold levelsShown
    rw [h.queues, aggregate_aggregate]
    exact congrArg _ (aggregate_congr_mem fun r hr => h.price_key hr)
  exact congrArg₂ OrderBookLevelInfos.mk (hlevels .Buy) (hlevels .Sell)

/-- Two empty books face each other. -/
theorem faces_empty (S : Split) (cs : List Call) : S.Faces cs Store.empty Store.empty where
  invariant := invariant_empty
  invariant' := invariant_empty
  allOpen _ h := absurd h List.not_mem_nil
  merges :=
    { queues := fun side => by cases side <;> rfl
      price := fun side r hr => by cases side <;> cases hr
      whole := fun side r hr => by cases side <;> cases hr }
  waits _ :=
    { whole := fun side r hr => by cases side <;> cases hr
      part₁ := fun side r hr => by cases side <;> cases hr
      part₂ := fun side r hr => by cases side <;> cases hr }

end Split

/-- **Nobody notices that an order has come in two parts.** Take any run of calls with new orders of
positive quantities, and send one of its orders as two, one behind the other, with its quantity
divided between them (and cancel both where it was cancelled). Then every other call is answered the
same, and every call makes the same deals as before once the two parts are read as the one order;
the queues are the same with the parts grouped, and so is the snapshot. -/
theorem split_unnoticed (S : Split) (hS : S.Valid) (cs : List Call) (hcs : S.Reserved cs)
    (hfresh : ∀ c ∈ cs, c.Fresh) :
    ∃ as s ass s' infos, (calls cs).run Store.empty = .returned as s ∧
      (calls (cs.flatMap S.calls)).run Store.empty = .returned ass.flatten s' ∧
      List.Forall₂ S.Tells as ass ∧
      (∀ side, queueOf s.sides side = aggregate S.key (queueOf s'.sides side)) ∧
      getOrderInfos.run s = .returned infos s ∧ getOrderInfos.run s' = .returned infos s' := by
  obtain ⟨as, s, hrun, hsteps⟩ := calls_steps invariant_empty cs
  obtain ⟨as', s', hrun', hsteps'⟩ := calls_steps invariant_empty (cs.flatMap S.calls)
  obtain ⟨ass, s₁, hparts, htells, hfaces⟩ := (S.faces_empty cs).run hS hcs hfresh hsteps
  obtain ⟨rfl, hstate⟩ :=
    (hsteps'.queueRun invariant_empty).unique (hparts.queueRun invariant_empty)
  have hsides : s'.sides = s₁.sides := congrArg QueueState.queues hstate
  have hmerges : S.Merges s.sides s'.sides := hsides ▸ hfaces.merges
  refine ⟨as, s, ass, s', _, hrun, hrun', htells, hmerges.queues, hfaces.invariant.getOrderInfos, ?_⟩
  rw [(hsteps'.invariant invariant_empty).getOrderInfos, hmerges.snapshotOf]

/-- A bid trades 5 of its 9 on arrival, and one of 3 and one of 6 do so together. -/
theorem split_unnoticed_three_and_six :
    let S : Split := ⟨Order.new .GoodTillCancel 7 .Buy 101 9, 7, 8, 3, 6⟩
    let cs : List Call := [.addOrder (Order.new .GoodTillCancel 1 .Sell 100 5),
      .addOrder (Order.new .GoodTillCancel 7 .Buy 101 9),
      .addOrder (Order.new .FillAndKill 2 .Sell 101 1), .cancelOrder 7]
    let cs' : List Call := [.addOrder (Order.new .GoodTillCancel 1 .Sell 100 5),
      .addOrder (Order.new .GoodTillCancel 7 .Buy 101 3),
      .addOrder (Order.new .GoodTillCancel 8 .Buy 101 6),
      .addOrder (Order.new .FillAndKill 2 .Sell 101 1), .cancelOrder 7, .cancelOrder 8]
    ∃ as s ass s' infos, (calls cs).run Store.empty = .returned as s ∧
      (calls cs').run Store.empty = .returned ass.flatten s' ∧ List.Forall₂ S.Tells as ass ∧
      getOrderInfos.run s = .returned infos s ∧ getOrderInfos.run s' = .returned infos s' := by
  intro S cs cs'
  have hcs' : cs.flatMap S.calls = cs' := by decide
  obtain ⟨as, s, ass, s', infos, hrun, hrun', htells, -, hinfos, hinfos'⟩ :=
    split_unnoticed S ⟨by decide, by decide, by decide, by decide, by decide⟩ cs
      ⟨by decide, by decide⟩ (by decide)
  rw [hcs'] at hrun'
  exact ⟨as, s, ass, s', infos, hrun, hrun', htells, hinfos, hinfos'⟩

end runs

end FlowManager.Book
