import FlowManager.Book.PriceTimePriority
import FlowManager.Book.View

/-!
# Orders that leave no trace

When nobody reads the answer of an `AddOrder`, the book may still be left as it was: the order
could not trade and was not kept. `LeavesNoTrace` says from the book before when this is so, and
`CallStep.traceless_iff` that it says so exactly. With a quantity of 0 it is the other way round
from what one expects: such an order rests where it cannot trade, and where it can it is popped
after a trade of nothing.
-/

namespace FlowManager.Book

open FlowManager.Lib FlowManager.Lib.PriceTime

variable {s s' : Store} {o : Order} {ts : Trades}

/-! ## The queues of a store -/

/-- The ids that rest are the ids of the queues. -/
theorem WellIndexed.resting?_ne_none_iff (h : WellIndexed s) {id : OrderId} :
    s.resting? id ≠ none ↔ ∃ side, ∃ r ∈ queueOf s.sides side, r.terms.orderId = id := by
  rw [Ne, resting?_eq_none_iff, not_not, h.mem_ordersMap_iff]
  constructor
  · rintro ⟨n, hn, rfl⟩
    obtain ⟨side, hside⟩ := mem_restingOrders_iff_queueOf.mp (mem_restingOrders.mpr ⟨n, hn, rfl⟩)
    exact ⟨side, _, hside, rfl⟩
  · rintro ⟨side, r, hr, rfl⟩
    obtain ⟨n, hn, rfl⟩ := mem_restingOrders.mp (mem_restingOrders_iff_queueOf.mpr ⟨side, hr⟩)
    exact ⟨n, hn, rfl⟩

/-- Every order of a queue has something open. -/
theorem AllOpen.queueOf (hopen : AllOpen s) {side : Side} {r : Resting OrderTerms}
    (hr : r ∈ queueOf s.sides side) : r.qty ≠ 0 := by
  obtain ⟨n, hn, rfl⟩ := mem_restingOrders.mp (mem_restingOrders_iff_queueOf.mpr ⟨side, hr⟩)
  exact hopen n hn

/-! ## Handing an order back -/

section handled

/-- What an order does to the opposite queue. -/
def Store.sweepOf (s : Store) (o : Order) : Swept OrderTerms :=
  sweep (PriceCrosses o.toOrderTerms) o.remainingQuantity.toNat
    (Book.queueOf s.sides o.side.opposite)

/-- What is left in the object of an order is what the sweep left. -/
theorem Handled.remaining_eq {p : OrderPointer} (h : Handled s o ts p s') :
    (s'.heap p).remainingQuantity.toNat = (s.sweepOf o).left.getD 0 := by
  obtain ⟨-, hleft, -, -⟩ := placeOrder_queues o.toOrderTerms o.remainingQuantity.toNat s.sides
  rw [h.remaining, acceptOrder_left, hleft]
  rfl

/-- An order rests if it is good till cancel and the sweep leaves something of it, which may be
nothing. -/
theorem Handled.rests_iff {p : OrderPointer} (h : Handled s o ts p s') (hi' : Invariant s') :
    s'.resting? o.orderId ≠ none ↔
      o.orderType = .GoodTillCancel ∧ (s.sweepOf o).left ≠ none := by
  have hunused := h.unused
  obtain ⟨-, -, hopp, hown⟩ := placeOrder_queues o.toOrderTerms o.remainingQuantity.toNat s.sides
  have hsweep : sweep (PriceCrosses o.toOrderTerms) o.remainingQuantity.toNat
    (Book.queueOf s.sides o.side.opposite) = s.sweepOf o := rfl
  rw [hsweep] at hopp hown
  have hopp' := (acceptOrder_opposite (q := o.remainingQuantity.toNat) hunused).trans hopp
  have hown' := acceptOrder_own (q := o.remainingQuantity.toNat) hunused
  rw [hi'.resting?_ne_none_iff, h.sides]
  constructor
  · rintro ⟨side, r, hr, heq⟩
    rcases side_eq_or side o.side with rfl | rfl
    · rw [hown'] at hr
      split_ifs at hr with htype
      · refine ⟨htype, fun hnone => ?_⟩
        rw [hown] at hr
        rcases mem_file_imp hr with ⟨q', hleft, -⟩ | hr
        · rw [show _ = none from hnone] at hleft
          cases hleft
        · exact hunused _ r hr heq
      · exact absurd heq (hunused _ r hr)
    · rw [hopp'] at hr
      obtain ⟨r', hr', hterms, -⟩ := mem_sweep_queue hr
      rw [← hterms] at heq
      exact absurd heq (hunused _ r' hr')
  · rintro ⟨htype, hleft⟩
    obtain ⟨q', hq'⟩ := Option.ne_none_iff_exists'.mp hleft
    refine ⟨o.side, ⟨o.toOrderTerms, q'⟩, ?_, rfl⟩
    rw [hown', if_pos htype, hown, hq']
    unfold file
    exact (List.perm_orderedInsert _ _ _).mem_iff.mpr List.mem_cons_self

/-- Where nothing crosses the price of an order, all of it is left. -/
theorem sweepOf_left_of_not_canMatch (hi : Invariant s)
    (h : ¬ s.book.canMatch o.side o.price = true) :
    (s.sweepOf o).left = some o.remainingQuantity.toNat := by
  have hstop : ∀ r ∈ (Book.queueOf s.sides o.side.opposite).head?,
      ¬PriceCrosses o.toOrderTerms r.terms := by
    intro r hr hcross
    exact h ((canMatch_iff_queue hi o.toOrderTerms).mpr ⟨r, hr, hcross⟩)
  unfold Store.sweepOf
  rw [sweep_of_not_hits hstop]

end handled

/-! ## No trace -/

/-- The order cannot trade and would not be kept: it is fill-and-kill where nothing crosses its
price, and of no quantity where something does. -/
def LeavesNoTrace (s : Store) (o : Order) : Prop :=
  if s.book.canMatch o.side o.price = true then o.remainingQuantity.toNat = 0
  else o.orderType = .FillAndKill

/-- Whether an order leaves no trace is decided. -/
instance (s : Store) (o : Order) : Decidable (LeavesNoTrace s o) := by
  unfold LeavesNoTrace
  infer_instance

/-- **An order leaves no trace of its own** if and only if it meets the condition. -/
theorem CallStep.traceless_iff {p : OrderPointer}
    (h : CallStep s (.addOrder o) (.added ts (some p)) s') (hi : Invariant s) (hopen : AllOpen s) :
    (s'.resting? o.orderId = none ∧ traded ts o.orderId = 0) ↔ LeavesNoTrace s o := by
  have hhandled := h.handled hi
  obtain ⟨rfl, htaken⟩ := h.taken hi hopen
  have hremaining := htaken.remaining
  have hrests := not_congr (hhandled.rests_iff (h.invariant hi))
  rw [not_not] at hrests
  rw [hhandled.remaining_eq] at hremaining
  rw [hrests]
  unfold LeavesNoTrace
  by_cases hmatch : s.book.canMatch o.side o.price = true
  · rw [if_pos hmatch]
    obtain ⟨r, hr, hcross⟩ := (canMatch_iff_queue hi o.toOrderTerms).mp hmatch
    cases hleft : (s.sweepOf o).left with
    | none =>
        rw [hleft, Option.getD_none, zero_add] at hremaining
        rw [hremaining]
        simp
    | some q' =>
        -- the front order is emptied, so something is traded
        obtain ⟨pre, rest, hqueue, -, -, hsum, -, hrest, -⟩ := sweep_of_left hleft
        have hpre : 0 < (pre.map Resting.qty).sum := by
          cases pre with
          | nil =>
              rw [hqueue] at hr
              exact absurd hcross (hrest r hr)
          | cons r' pre =>
              have hmem : r' ∈ Book.queueOf s.sides o.side.opposite := by
                rw [hqueue]
                exact List.mem_append_left _ List.mem_cons_self
              have hpos := hopen.queueOf hmem
              rw [List.map_cons, List.sum_cons]
              omega
        rw [hleft, Option.getD_some] at hremaining
        constructor
        · rintro ⟨-, hzero⟩
          omega
        · intro hzero
          omega
  · rw [if_neg hmatch]
    have hleft := sweepOf_left_of_not_canMatch hi hmatch
    rw [hleft, Option.getD_some] at hremaining
    rw [hleft]
    constructor
    · rintro ⟨hnot, -⟩
      cases htype : o.orderType with
      | GoodTillCancel => exact absurd ⟨htype, Option.some_ne_none _⟩ hnot
      | FillAndKill => rfl
    · intro hfak
      refine ⟨?_, by omega⟩
      rintro ⟨hgtc, -⟩
      rw [hfak] at hgtc
      cases hgtc

/-- Trades that move nothing for one of their parties move nothing. -/
theorem Taken.legs_eq_zero {p : OrderPointer} (h : Taken s o ts p s')
    (hown : traded ts o.orderId = 0) : ∀ t ∈ ts, ∀ l ∈ t.legs, l.tradedQuantity.toNat = 0 := by
  intro t ht l hl
  obtain ⟨⟨l', hl', hid⟩, hequal⟩ := h.party t ht
  have hl'zero : l'.tradedQuantity.toNat = 0 := traded_eq_zero_iff.mp hown t ht l' hl' hid
  have hsame : l.tradedQuantity = l'.tradedQuantity := by
    simp only [Trade.legs, List.mem_cons, List.not_mem_nil, or_false] at hl hl'
    rcases hl with rfl | rfl <;> rcases hl' with rfl | rfl <;>
      first | rfl | exact hequal | exact hequal.symm
  rw [hsame, hl'zero]

/-- So they move nothing for any order. -/
theorem Taken.traded_eq_zero {p : OrderPointer} (h : Taken s o ts p s')
    (hown : traded ts o.orderId = 0) (id : OrderId) : traded ts id = 0 :=
  traded_eq_zero_iff.mpr fun t ht l hl _ => h.legs_eq_zero hown t ht l hl

/-- **An order that leaves no trace leaves the book as it was**: the same orders rest, and nothing
has been traded. -/
theorem CallStep.traceless {p : OrderPointer}
    (h : CallStep s (.addOrder o) (.added ts (some p)) s') (hi : Invariant s) (hopen : AllOpen s)
    (htrace : LeavesNoTrace s o) :
    AllOpen s' ∧ (∀ id, s'.resting? id = s.resting? id) ∧ ∀ id, traded ts id = 0 := by
  obtain ⟨hgone, hown⟩ := (h.traceless_iff hi hopen).mpr htrace
  obtain ⟨-, htaken⟩ := h.taken hi hopen
  have hzero := htaken.traded_eq_zero hown
  have hnew : s.resting? o.orderId = none := by
    cases h with
    | turnedAway _ hid _ _ => exact resting?_eq_none_iff.mpr hid
    | accepted _ _ _ hid _ _ => exact resting?_eq_none_iff.mpr hid
  have hsame : ∀ id, s'.resting? id = s.resting? id := by
    intro id
    by_cases hid : id = o.orderId
    · rw [hid, hgone, hnew]
    · have hloses := htaken.others id hid
      unfold Loses at hloses
      cases hx : s.resting? id with
      | none =>
          rw [hx] at hloses
          exact hloses.1
      | some x =>
          rw [hx, hzero id] at hloses
          have hx0 := hopen.resting? hi.toWellIndexed hx
          rcases hloses with ⟨hfilled, -⟩ | ⟨x', hx', hterms, hrem⟩
          · exact absurd hfilled.symm hx0
          · rw [hx']
            obtain ⟨t, q⟩ := x
            obtain ⟨t', q'⟩ := x'
            have hq : q' = q := UInt32.toNat_inj.mp hrem
            have ht : t' = t := hterms
            rw [hq, ht]
  refine ⟨?_, hsame, hzero⟩
  intro n hn
  have hrest := htaken.invariant.resting?_idAt hn
  rw [hsame] at hrest
  exact hopen.resting? hi.toWellIndexed hrest

/-! ## Orders of nothing -/

/-- The order has a quantity, or it is fill-and-kill and nothing crosses its price. -/
def Meaningful (s : Store) (o : Order) : Prop :=
  o.initialQuantity ≠ 0 ∨ (o.orderType = .FillAndKill ∧ s.book.canMatch o.side o.price = false)

section meaningful

variable {p : OrderPointer}

/-- A meaningful order leaves everything in the book with something open, and trades
quantities. -/
theorem CallStep.allOpen_of_meaningful (h : CallStep s (.addOrder o) (.added ts (some p)) s')
    (hi : Invariant s) (hopen : AllOpen s) (hquantity : o.remainingQuantity = o.initialQuantity)
    (hmeaning : Meaningful s o) :
    AllOpen s' ∧ ∀ t ∈ ts, ∀ l ∈ t.legs, 0 < l.tradedQuantity.toNat := by
  obtain ⟨-, htaken⟩ := h.taken hi hopen
  rcases hmeaning with hne | ⟨hfak, hcan⟩
  · have hpos : o.remainingQuantity.toNat ≠ 0 := by
      rw [hquantity]
      exact fun hzero => hne (UInt32.toNat_inj.mp hzero)
    exact (htaken.positive hpos).symm
  · cases h with
    | turnedAway => exact ⟨hi.toWellIndexed.allOpen_alloc hopen o, by simp⟩
    | accepted _ _ _ _ hmatch _ =>
        rw [hmatch hfak] at hcan
        cases hcan

/-- Another order leaves something in the book with nothing open, or trades nothing. -/
theorem CallStep.meaningful_of_allOpen (h : CallStep s (.addOrder o) (.added ts (some p)) s')
    (hi : Invariant s) (hopen : AllOpen s) (hquantity : o.remainingQuantity = o.initialQuantity)
    (hopen' : AllOpen s') (hpos : ∀ t ∈ ts, ∀ l ∈ t.legs, 0 < l.tradedQuantity.toNat) :
    Meaningful s o := by
  by_contra hnot
  unfold Meaningful at hnot
  rw [not_or, not_not] at hnot
  obtain ⟨hzero, hnot⟩ := hnot
  have hq : o.remainingQuantity.toNat = 0 := by
    rw [hquantity, hzero]
    rfl
  obtain ⟨-, htaken⟩ := h.taken hi hopen
  have hhandled := h.handled hi
  by_cases hmatch : s.book.canMatch o.side o.price = true
  · -- a trade of nothing
    obtain ⟨r, hr, hcross⟩ := (canMatch_iff_queue hi o.toOrderTerms).mp hmatch
    have hts : ts ≠ [] := by
      rintro rfl
      have hnil := List.forall₂_nil_left_iff.mp hhandled.records
      exact acceptOrder_fills_eq_nil_iff.mp hnil r hr hcross
    obtain ⟨t, ht⟩ := List.exists_mem_of_ne_nil ts hts
    have hremaining := htaken.remaining
    have hnothing := htaken.legs_eq_zero (by omega) t ht t.bidTrade (by simp [Trade.legs])
    have hsome := hpos t ht t.bidTrade (by simp [Trade.legs])
    omega
  · -- an order of nothing
    have hgtc : o.orderType = .GoodTillCancel := by
      cases htype : o.orderType with
      | GoodTillCancel => rfl
      | FillAndKill => exact absurd ⟨htype, by simpa using hmatch⟩ hnot
    have hrests : s'.resting? o.orderId ≠ none := by
      rw [hhandled.rests_iff htaken.invariant]
      exact ⟨hgtc, by simp [sweepOf_left_of_not_canMatch hi hmatch]⟩
    obtain ⟨x, hx⟩ := Option.ne_none_iff_exists'.mp hrests
    obtain ⟨rfl, -⟩ := htaken.rests x hx
    have hne := hopen'.resting? htaken.invariant.toWellIndexed hx
    have hremaining := htaken.remaining
    omega

end meaningful

end FlowManager.Book
