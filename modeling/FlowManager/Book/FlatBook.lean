import FlowManager.Book.Steps

/-!
# The specification of the order book: a flat list with arrival stamps

What an order book is for, with no levels, no index and no nested loops. `FlatBook` keeps its
resting orders in one list, in no particular order, each with the stamp of its acceptance. An
incoming order takes, again and again, the *best* order of the other side, the one with the best
price and among equals the earliest stamp, while their prices cross and it has quantity left.
What is left of a good-till-cancel order rests with the next stamp.
-/

namespace FlowManager.Book

open FlowManager.Lib FlowManager.Lib.PriceTime

/-- The terms of a resting order with the stamp of its acceptance. -/
structure Stamped where
  terms : OrderTerms
  stamp : ℕ
  deriving DecidableEq

/-- The better of two prices on a side: bids look for the higher, asks for the lower. -/
def BetterPrice (side : Side) (p p' : Price) : Prop :=
  match side with
  | .Buy => p > p'
  | .Sell => p < p'

/-- Which price is better on a side is decided. -/
instance (side : Side) (p p' : Price) : Decidable (BetterPrice side p p') := by
  unfold BetterPrice
  cases side <;> infer_instance

/-- Price-time priority on one side: better price first, and among equal prices the earlier
stamp. -/
def Precedes (x y : Stamped) : Prop :=
  BetterPrice x.terms.side x.terms.price y.terms.price ∨
    (x.terms.price = y.terms.price ∧ x.stamp < y.stamp)

/-- Which order comes first is decided. -/
instance : DecidableRel Precedes := fun x y =>
  inferInstanceAs (Decidable (BetterPrice x.terms.side x.terms.price y.terms.price ∨ _))

/-- The price limits of an incoming and a resting order of opposite sides allow a trade. -/
def PriceCrosses (incoming resting : OrderTerms) : Prop :=
  match incoming.side with
  | .Buy => resting.price ≤ incoming.price
  | .Sell => incoming.price ≤ resting.price

/-- Whether an order crosses another is decided. -/
instance : DecidableRel PriceCrosses := fun x y => by
  unfold PriceCrosses
  cases x.side <;> infer_instance

/-- The orders of a side. -/
def ofSide (side : Side) (rs : List (Resting Stamped)) : List (Resting Stamped) :=
  rs.filter fun r => decide (r.terms.terms.side = side)

/-- The other side. -/
def Side.opposite : Side → Side
  | .Buy => .Sell
  | .Sell => .Buy

/-- The order that precedes all others. -/
def best? (rs : List (Resting Stamped)) : Option (Resting Stamped) :=
  rs.find? fun r => rs.all fun r' => decide (r' = r) || decide (Precedes r.terms r'.terms)

/-- The best order rests. -/
theorem mem_of_best? {rs : List (Resting Stamped)} {r : Resting Stamped}
    (h : best? rs = some r) : r ∈ rs :=
  List.mem_of_find?_eq_some h

/-- What an incoming order does to the resting orders: whom it traded with and for how much, what
it has left, and what still rests. -/
structure FlatSwept where
  fills : List (OrderTerms × ℕ)
  left : ℕ
  resting : List (Resting Stamped)

/-- Trade with the best order of the other side, while prices cross and quantity is left. -/
def sweepFlat (o : OrderTerms) (q : ℕ) (rs : List (Resting Stamped)) : FlatSwept :=
  if _hq : q = 0 then ⟨[], 0, rs⟩
  else
    match _hr : best? (ofSide o.side.opposite rs) with
    | none => ⟨[], q, rs⟩
    | some r =>
        if PriceCrosses o r.terms.terms then
          let w := sweepFlat o (q - min q r.qty) (settle (min q r.qty) r (rs.erase r))
          ⟨(r.terms.terms, min q r.qty) :: w.fills, w.left, w.resting⟩
        else ⟨[], q, rs⟩
termination_by q + rs.length
decreasing_by
  have hmem : r ∈ rs := List.mem_of_mem_filter (mem_of_best? _hr)
  have hlen := List.length_erase_of_mem hmem
  have hpos := List.length_pos_of_mem hmem
  unfold settle
  split_ifs
  · omega
  · rw [List.length_cons]
    omega

/-- A trade as the specification sees it: the buyer, the seller and the quantity. -/
structure FlatTrade where
  bidId : OrderId
  askId : OrderId
  quantity : ℕ
  deriving DecidableEq

/-- The trade of an incoming order with a resting one. -/
def FlatTrade.between (o : OrderTerms) (fill : OrderTerms × ℕ) : FlatTrade :=
  match o.side with
  | .Buy => ⟨o.orderId, fill.1.orderId, fill.2⟩
  | .Sell => ⟨fill.1.orderId, o.orderId, fill.2⟩

/-- The specification's state: the resting orders, in no particular order, and the next stamp. -/
structure FlatBook where
  resting : List (Resting Stamped)
  clock : ℕ

/-- What a call answers. -/
inductive FlatAnswer where
  | added (trades : List FlatTrade) (accepted : Bool)
  | cancelled (success : Bool)
  deriving DecidableEq

namespace FlatBook

/-- No orders. -/
def empty : FlatBook := ⟨[], 0⟩

/-- The id is live. -/
def Live (b : FlatBook) (id : OrderId) : Prop := ∃ r ∈ b.resting, r.terms.terms.orderId = id

/-- Whether an id is live is decided. -/
instance (b : FlatBook) (id : OrderId) : Decidable (b.Live id) :=
  inferInstanceAs (Decidable (∃ r ∈ b.resting, r.terms.terms.orderId = id))

/-- Add an order with a quantity. -/
def add (b : FlatBook) (o : OrderTerms) (q : ℕ) : FlatAnswer × FlatBook :=
  if b.Live o.orderId then (.added [] false, b)
  else
    let w := sweepFlat o q b.resting
    (.added (w.fills.map (FlatTrade.between o)) true,
      if o.orderType = .GoodTillCancel ∧ 0 < w.left then
        ⟨⟨⟨o, b.clock⟩, w.left⟩ :: w.resting, b.clock + 1⟩
      else ⟨w.resting, b.clock⟩)

/-- Cancel the order of an id. -/
def cancel (b : FlatBook) (id : OrderId) : FlatAnswer × FlatBook :=
  if b.Live id then
    (.cancelled true, ⟨b.resting.filter fun r => decide (r.terms.terms.orderId ≠ id), b.clock⟩)
  else (.cancelled false, b)

/-- Make one call. -/
def call (b : FlatBook) : Call → FlatAnswer × FlatBook
  | .addOrder o => b.add o.toOrderTerms o.initialQuantity.toNat
  | .cancelOrder id => b.cancel id

/-- Make a sequence of calls and collect the answers. -/
def calls (b : FlatBook) : List Call → List FlatAnswer × FlatBook
  | [] => ([], b)
  | c :: cs =>
      let (a, b') := b.call c
      let (as, b'') := b'.calls cs
      (a :: as, b'')

/-- The queue lists the orders of a side, in priority order. -/
def Lists (b : FlatBook) (side : Side) (queue : List (Resting OrderTerms)) : Prop :=
  ∃ l : List (Resting Stamped), l.Perm (ofSide side b.resting) ∧
    l.Pairwise (fun r r' => Precedes r.terms r'.terms) ∧
    queue = l.map (Resting.map Stamped.terms)

end FlatBook

/-! ## Finding the best order -/

section price

variable {side : Side} {p p' p'' : Price}

/-- No price is better than itself. -/
theorem BetterPrice.irrefl : ¬ BetterPrice side p p := by
  rcases side <;> exact UInt32.lt_irrefl p

/-- A price that is better than a better one is better. -/
theorem BetterPrice.trans (h : BetterPrice side p p') (h' : BetterPrice side p' p'') :
    BetterPrice side p p'' := by
  rcases side
  · exact UInt32.lt_trans h' h
  · exact UInt32.lt_trans h h'

/-- Of two prices not each is better. -/
theorem BetterPrice.asymm (h : BetterPrice side p p') : ¬ BetterPrice side p' p := fun h' =>
  irrefl (h.trans h')

/-- A price that is not better is equal or worse. -/
theorem BetterPrice.eq_or_of_not (h : ¬ BetterPrice side p p') :
    p = p' ∨ BetterPrice side p' p := by
  by_cases heq : p = p'
  · exact Or.inl heq
  · right
    rcases side
    · exact UInt32.lt_of_le_of_ne (UInt32.not_lt.mp h) heq
    · exact UInt32.lt_of_le_of_ne (UInt32.not_lt.mp h) (Ne.symm heq)

end price

/-- Of two orders of a side not each comes first. -/
theorem precedes_asymm {x y : Stamped} (hside : x.terms.side = y.terms.side)
    (h : Precedes x y) : ¬ Precedes y x := by
  unfold Precedes at *
  rw [hside] at h
  rintro (hlt | ⟨heq, hlt⟩)
  · rcases h with h | ⟨h, -⟩
    · exact h.asymm hlt
    · exact BetterPrice.irrefl (h ▸ hlt)
  · rcases h with h | ⟨-, h⟩
    · exact BetterPrice.irrefl (heq ▸ h)
    · omega

/-- Who comes before the one before a third comes before the third. -/
theorem precedes_trans {x y z : Stamped} (hxy : x.terms.side = y.terms.side)
    (h : Precedes x y) (h' : Precedes y z) : Precedes x z := by
  unfold Precedes at *
  rw [hxy] at h ⊢
  rcases h with h | ⟨hp, hs⟩
  · rcases h' with h' | ⟨hp', -⟩
    · exact Or.inl (h.trans h')
    · exact Or.inl (hp' ▸ h)
  · rcases h' with h' | ⟨hp', hs'⟩
    · exact Or.inl (hp ▸ h')
    · exact Or.inr ⟨hp.trans hp', hs.trans hs'⟩

/-- The orders of a side. -/
theorem mem_ofSide {side : Side} {rs : List (Resting Stamped)} {r : Resting Stamped} :
    r ∈ ofSide side rs ↔ r ∈ rs ∧ r.terms.terms.side = side := by
  simp [ofSide]

/-- The best order is the head of the orders in priority order. -/
theorem best?_of_perm {side : Side} {rs l : List (Resting Stamped)} {a : Resting Stamped}
    (hperm : (a :: l).Perm (ofSide side rs))
    (hsorted : (a :: l).Pairwise fun r r' => Precedes r.terms r'.terms) :
    best? (ofSide side rs) = some a := by
  have hhead := (List.pairwise_cons.mp hsorted).1
  have ha : a ∈ ofSide side rs := hperm.mem_iff.mp List.mem_cons_self
  have hall : (ofSide side rs).all (fun r' => decide (r' = a) ||
      decide (Precedes a.terms r'.terms)) = true := by
    rw [List.all_eq_true]
    intro r' hr'
    rcases List.mem_cons.mp (hperm.mem_iff.mpr hr') with rfl | hr'
    · simp
    · simp [hhead r' hr']
  rcases hbest : best? (ofSide side rs) with _ | r
  · have hnone := List.find?_eq_none.mp hbest a ha
    exact absurd hall hnone
  · have hr : r ∈ ofSide side rs := mem_of_best? hbest
    have hp := List.find?_some hbest
    rw [List.all_eq_true] at hp
    have hra := hp a ha
    simp only [Bool.or_eq_true, decide_eq_true_eq] at hra
    rcases hra with rfl | hra
    · rfl
    · rcases List.mem_cons.mp (hperm.mem_iff.mpr hr) with rfl | hrl
      · rfl
      · have hside : r.terms.terms.side = a.terms.terms.side :=
          (mem_ofSide.mp hr).2.trans (mem_ofSide.mp ha).2.symm
        exact absurd (hhead r hrl) (precedes_asymm hside hra)

end FlowManager.Book
