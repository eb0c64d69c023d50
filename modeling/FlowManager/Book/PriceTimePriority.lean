import FlowManager.Book.Queues

/-!
# Price-time priority

The order book refines the flat specification. The refinement goes through the two queues: a
`Store` reads as two queues (`Store.sides`), every call acts on these as `acceptOrder` and
`withdraw` do, and the queues list the orders of a `FlatBook` in priority order (`Refines`).

The two facts behind it are about a list in priority order: sweeping it from the front is trading
with the best order again and again (`sweepFlat_eq`), and filing the newest order behind every
order it does not beat in price keeps it in priority order (`file_sorted`).
-/

namespace FlowManager.Book

open FlowManager.Lib FlowManager.Lib.PriceTime

/-! ## Sweeping from the front is taking the best -/

section sweep

variable {o : OrderTerms} {q : ℕ} {rs l : List (Resting Stamped)} {a : Resting Stamped}

/-- Nothing that comes in sweeps nothing. -/
theorem sweepFlat_zero : sweepFlat o 0 rs = ⟨[], 0, rs⟩ := by
  rw [sweepFlat, dif_pos rfl]

/-- Without an order on the other side there is no deal. -/
theorem sweepFlat_of_none (hq : 0 < q) (h : best? (ofSide o.side.opposite rs) = none) :
    sweepFlat o q rs = ⟨[], q, rs⟩ := by
  rw [sweepFlat, dif_neg hq.ne']
  split <;> simp_all

/-- Without a price that crosses there is no deal. -/
theorem sweepFlat_of_not_crosses (hq : 0 < q) (h : best? (ofSide o.side.opposite rs) = some a)
    (hc : ¬ PriceCrosses o a.terms.terms) : sweepFlat o q rs = ⟨[], q, rs⟩ := by
  rw [sweepFlat, dif_neg hq.ne']
  split <;> simp_all

/-- A deal with the best order of the other side, and the rest of the sweep. -/
theorem sweepFlat_of_crosses (hq : 0 < q) (h : best? (ofSide o.side.opposite rs) = some a)
    (hc : PriceCrosses o a.terms.terms) :
    sweepFlat o q rs =
      ⟨(a.terms.terms, min q a.qty) ::
          (sweepFlat o (q - min q a.qty) (settle (min q a.qty) a (rs.erase a))).fills,
        (sweepFlat o (q - min q a.qty) (settle (min q a.qty) a (rs.erase a))).left,
        (sweepFlat o (q - min q a.qty) (settle (min q a.qty) a (rs.erase a))).resting⟩ := by
  rw [sweepFlat, dif_neg hq.ne']
  split
  · simp_all
  · rename_i r hr
    rw [h] at hr
    obtain rfl := Option.some.inj hr
    rw [if_pos hc]

/-- The other side is another. -/
theorem opposite_ne (side : Side) : side.opposite ≠ side := by
  cases side <;> simp [Side.opposite]

/-- The orders of a side, with one more. -/
theorem ofSide_cons (side : Side) (r : Resting Stamped) (rs : List (Resting Stamped)) :
    ofSide side (r :: rs) = if r.terms.terms.side = side then r :: ofSide side rs
      else ofSide side rs := by
  simp [ofSide, List.filter_cons]

/-- Settling an order of the side. -/
theorem ofSide_settle_self {side : Side} (t : ℕ) (h : a.terms.terms.side = side) :
    ofSide side (settle t a rs) = settle t a (ofSide side rs) := by
  unfold settle
  split_ifs
  · rfl
  · rw [ofSide_cons, if_pos h]

/-- Settling an order of the other side does not show. -/
theorem ofSide_settle_of_ne {side : Side} (t : ℕ) (h : a.terms.terms.side ≠ side) :
    ofSide side (settle t a rs) = ofSide side rs := by
  unfold settle
  split_ifs
  · rfl
  · rw [ofSide_cons, if_neg h]

/-- Taking an order out of the flat list. -/
theorem ofSide_erase (side : Side) (ha : a ∈ rs) :
    (ofSide side rs).Perm (ofSide side (a :: rs.erase a)) :=
  (List.perm_cons_erase ha).filter _

/-- **Sweeping a list in priority order from the front is trading with the best order, again and
again.** -/
theorem sweepFlat_eq {hits : OrderTerms → Prop} [DecidablePred hits]
    (hhits : ∀ x, hits x ↔ PriceCrosses o x) (hq : 0 < q)
    (hperm : l.Perm (ofSide o.side.opposite rs))
    (hsorted : l.Pairwise fun r r' => Precedes r.terms r'.terms) :
    (sweepFlat o q rs).fills =
        (sweep (fun x : Stamped => hits x.terms) q l).fills.map (fun p => (p.1.terms, p.2)) ∧
      (sweepFlat o q rs).left = (sweep (fun x : Stamped => hits x.terms) q l).left.getD 0 ∧
      (sweep (fun x : Stamped => hits x.terms) q l).queue.Perm
        (ofSide o.side.opposite (sweepFlat o q rs).resting) ∧
      (ofSide o.side rs).Perm (ofSide o.side (sweepFlat o q rs).resting) := by
  induction l generalizing q rs with
  | nil =>
      have hnone : best? (ofSide o.side.opposite rs) = none := by
        rw [← hperm.nil_eq]
        rfl
      rw [sweepFlat_of_none hq hnone]
      exact ⟨rfl, rfl, hperm, List.Perm.refl _⟩
  | cons a l ih =>
      have hbest := best?_of_perm hperm hsorted
      have ha := mem_ofSide.mp (hperm.mem_iff.mp List.mem_cons_self)
      have hne : a.terms.terms.side ≠ o.side := by
        rw [ha.2]
        exact opposite_ne _
      by_cases hc : hits a.terms.terms
      · rw [sweepFlat_of_crosses hq hbest ((hhits _).mp hc)]
        have hrest : l.Perm (ofSide o.side.opposite (rs.erase a)) := by
          have h := hperm.trans (ofSide_erase _ ha.1)
          rw [ofSide_cons, if_pos ha.2] at h
          exact h.cons_inv
        have hown : (ofSide o.side rs).Perm (ofSide o.side (rs.erase a)) := by
          have h := ofSide_erase o.side ha.1
          rwa [ofSide_cons, if_neg hne] at h
        rcases Nat.lt_or_ge a.qty q with hlt | hle
        · -- the best order is emptied
          rw [sweep_cons_of_lt (r := a) hc hlt, Nat.min_eq_right hlt.le, settle_of_le le_rfl]
          obtain ⟨hfills, hleft, hqueue, hown'⟩ :=
            ih (Nat.sub_pos_of_lt hlt) hrest (List.pairwise_cons.mp hsorted).2
          refine ⟨?_, hleft, hqueue, hown.trans hown'⟩
          rw [hfills]
          rfl
        · -- the best order takes everything
          rw [sweep_cons_of_le (r := a) hc hle, Nat.min_eq_left hle, Nat.sub_self, sweepFlat_zero,
            ofSide_settle_self _ ha.2, ofSide_settle_of_ne _ hne]
          refine ⟨rfl, rfl, ?_, hown⟩
          unfold settle
          split_ifs
          · exact hrest
          · exact hrest.cons _
      · rw [sweepFlat_of_not_crosses hq hbest fun h => hc ((hhits _).mpr h),
          sweep_of_not_hits (by simpa using hc)]
        exact ⟨rfl, rfl, hperm, List.Perm.refl _⟩

end sweep

/-! ## Filing the newest order -/

/-- **The newest order goes behind every order it does not beat in price.** -/
theorem file_sorted {o : OrderTerms} {t q : ℕ} {l : List (Resting Stamped)}
    (hside : ∀ r ∈ l, r.terms.terms.side = o.side) (hstamp : ∀ r ∈ l, r.terms.stamp < t)
    (hsorted : l.Pairwise fun r r' => Precedes r.terms r'.terms) :
    (l.orderedInsert (fun r r' : Resting Stamped =>
        BetterPrice o.side r.terms.terms.price r'.terms.terms.price) ⟨⟨o, t⟩, q⟩).Pairwise
      fun r r' => Precedes r.terms r'.terms := by
  induction l with
  | nil => simp
  | cons a l ih =>
      obtain ⟨hhead, htail⟩ := List.pairwise_cons.mp hsorted
      have ha := hside a List.mem_cons_self
      by_cases hbetter : BetterPrice o.side o.price a.terms.terms.price
      · rw [List.orderedInsert_cons, if_pos hbetter]
        have hprec : Precedes ⟨o, t⟩ a.terms := Or.inl hbetter
        refine List.pairwise_cons.mpr ⟨?_, hsorted⟩
        intro r hr
        rcases List.mem_cons.mp hr with rfl | hr
        · exact hprec
        · exact precedes_trans ha.symm hprec (hhead r hr)
      · rw [List.orderedInsert_cons, if_neg hbetter]
        have hprec : Precedes a.terms ⟨o, t⟩ := by
          unfold Precedes
          rw [ha]
          rcases BetterPrice.eq_or_of_not hbetter with heq | hb
          · exact Or.inr ⟨heq.symm, hstamp a List.mem_cons_self⟩
          · exact Or.inl hb
        refine List.pairwise_cons.mpr ⟨?_, ih (fun r hr => hside r (List.mem_cons_of_mem _ hr))
          (fun r hr => hstamp r (List.mem_cons_of_mem _ hr)) htail⟩
        intro r hr
        rcases (List.mem_orderedInsert _).mp hr with rfl | hr
        · exact hprec
        · exact hhead r hr

/-! ## The refinement -/

/-- The queues are those of a flat book, and no stamp is used twice. -/
structure Refines (s : Sides OrderTerms) (b : FlatBook) : Prop where
  lists : ∀ side, b.Lists side (queueOf s side)
  stamps : ∀ r ∈ b.resting, r.terms.stamp < b.clock

/-- A fill, as the specification sees the trade. -/
def flatTrade (f : Fill OrderTerms) : FlatTrade := ⟨f.bid.orderId, f.ask.orderId, f.qty⟩

section refines

variable {s : Sides OrderTerms} {b : FlatBook} {o : OrderTerms} {q : ℕ}

/-- The live ids are the ids of the queues. -/
theorem Refines.live_iff (h : Refines s b) {id : OrderId} :
    b.Live id ↔ ∃ r ∈ restingOrders s, r.terms.orderId = id := by
  constructor
  · rintro ⟨r, hr, hid⟩
    obtain ⟨l, hperm, -, hl⟩ := h.lists r.terms.terms.side
    refine ⟨r.map Stamped.terms, mem_restingOrders_iff_queueOf.mpr ⟨r.terms.terms.side, ?_⟩, hid⟩
    rw [hl]
    exact List.mem_map_of_mem (hperm.mem_iff.mpr (mem_ofSide.mpr ⟨hr, rfl⟩))
  · rintro ⟨r, hr, hid⟩
    obtain ⟨side, hr⟩ := mem_restingOrders_iff_queueOf.mp hr
    obtain ⟨l, hperm, -, hl⟩ := h.lists side
    rw [hl] at hr
    obtain ⟨r', hr', rfl⟩ := List.mem_map.mp hr
    exact ⟨r', (mem_ofSide.mp (hperm.mem_iff.mp hr')).1, hid⟩

/-- Withdrawing an id from the queues is filtering the flat list. -/
theorem Refines.withdraw (h : Refines s b) (id : OrderId) :
    Refines (withdraw id s)
      ⟨b.resting.filter fun r => decide (r.terms.terms.orderId ≠ id), b.clock⟩ where
  lists side := by
    obtain ⟨l, hperm, hsorted, hl⟩ := h.lists side
    refine ⟨l.filter fun r => decide (r.terms.terms.orderId ≠ id), ?_, hsorted.filter _, ?_⟩
    · have hcomm : ofSide side (b.resting.filter fun r => decide (r.terms.terms.orderId ≠ id)) =
          (ofSide side b.resting).filter fun r => decide (r.terms.terms.orderId ≠ id) := by
        unfold ofSide
        exact List.filter_comm _ _ _
      rw [hcomm]
      exact hperm.filter _
    · have hqueue : queueOf (FlowManager.Book.withdraw id s) side =
          (queueOf s side).filter fun r => decide (r.terms.orderId ≠ id) := by
        rcases side <;> rfl
      rw [hqueue, hl, List.filter_map]
      rfl
  stamps r hr := h.stamps r (List.mem_of_mem_filter hr)

/-- A deal of the queues is a deal of the flat book. -/
theorem flatTrade_fillOf (o : OrderTerms) (p : OrderTerms × ℕ) :
    flatTrade (fillOf o p) = FlatTrade.between o p := by
  unfold fillOf FlatTrade.between flatTrade
  cases o.side <;> rfl

section swept

variable {l k : List (Resting Stamped)} {s' : Sides OrderTerms}

/-- The order has traded away, and nothing of it rests. -/
theorem Refines.of_swept (h : Refines s b) (hq : 0 < q)
    (hperm : l.Perm (ofSide o.side.opposite b.resting))
    (hsorted : l.Pairwise fun r r' => Precedes r.terms r'.terms)
    (hown : queueOf s' o.side = queueOf s o.side)
    (hopp : queueOf s' o.side.opposite =
      (sweep (fun x : Stamped => PriceCrosses o x.terms) q l).queue.map
        (Resting.map Stamped.terms)) :
    Refines s' ⟨(sweepFlat o q b.resting).resting, b.clock⟩ := by
  obtain ⟨-, -, hfqueue, hfown⟩ :=
    sweepFlat_eq (fun x => (Iff.rfl : PriceCrosses o x ↔ _)) hq hperm hsorted
  refine ⟨?_, ?_⟩
  · intro side
    rcases side_eq_or side o.side with rfl | rfl
    · obtain ⟨k, hkperm, hksorted, hk⟩ := h.lists o.side
      exact ⟨k, hkperm.trans hfown, hksorted, hown.trans hk⟩
    · exact ⟨_, hfqueue, sweep_queue_pairwise hsorted, hopp⟩
  · intro r hr
    rcases side_eq_or r.terms.terms.side o.side with hside | hside
    · have hmem := hfown.mem_iff.mpr (mem_ofSide.mpr ⟨hr, hside⟩)
      exact h.stamps r (mem_ofSide.mp hmem).1
    · have hmem := hfqueue.mem_iff.mpr (mem_ofSide.mpr ⟨hr, hside⟩)
      obtain ⟨r', hr', hterms, -⟩ := mem_sweep_queue hmem
      rw [← hterms]
      exact h.stamps r' (mem_ofSide.mp (hperm.mem_iff.mp hr')).1

/-- What is left of the order rests with the next stamp. -/
theorem Refines.of_filed (h : Refines s' b) {q' : ℕ} {s'' : Sides OrderTerms}
    (hown : queueOf s'' o.side =
      file (fun x y => BetterPrice o.side x.price y.price) o (some q') (queueOf s' o.side))
    (hopp : queueOf s'' o.side.opposite = queueOf s' o.side.opposite) :
    Refines s'' ⟨⟨⟨o, b.clock⟩, q'⟩ :: b.resting, b.clock + 1⟩ := by
  refine ⟨?_, ?_⟩
  · intro side
    rcases side_eq_or side o.side with rfl | rfl
    · obtain ⟨k, hkperm, hksorted, hk⟩ := h.lists o.side
      have hmem := fun r hr => mem_ofSide.mp (hkperm.mem_iff.mp hr : r ∈ _)
      refine ⟨_, ?_, file_sorted (t := b.clock) (q := q') (fun r hr => (hmem r hr).2)
        (fun r hr => h.stamps r (hmem r hr).1) hksorted, ?_⟩
      · rw [ofSide_cons, if_pos rfl]
        exact (List.perm_orderedInsert _ _ _).trans (hkperm.cons _)
      · rw [hown, hk]
        symm
        exact List.map_orderedInsert _ _ (Resting.map Stamped.terms) k ⟨⟨o, b.clock⟩, q'⟩
          (fun _ _ => Iff.rfl) (fun _ _ => Iff.rfl)
    · obtain ⟨l, hperm, hsorted, hl⟩ := h.lists o.side.opposite
      refine ⟨l, ?_, hsorted, hopp.trans hl⟩
      rwa [ofSide_cons, if_neg (opposite_ne _).symm]
  · intro r hr
    rcases List.mem_cons.mp hr with rfl | hr
    · exact Nat.lt_succ_self _
    · exact Nat.lt_succ_of_lt (h.stamps r hr)

end swept

/-- **Accepting an order refines adding it to the flat book.** -/
theorem Refines.add (h : Refines s b) (hq : 0 < q) (hid : ¬ b.Live o.orderId) :
    ∃ b', b.add o q = (.added ((acceptOrder o q s).fills.map flatTrade) true, b') ∧
      Refines (acceptOrder o q s).sides b' := by
  obtain ⟨hfills, hleft, hopp, hown⟩ := placeOrder_queues o q s
  obtain ⟨l, hperm, hsorted, hl⟩ := h.lists o.side.opposite
  obtain ⟨hffills, hfleft, -, -⟩ :=
    sweepFlat_eq (fun x => (Iff.rfl : PriceCrosses o x ↔ _)) hq hperm hsorted
  rw [hl, sweep_map] at hfills hleft hopp hown
  simp only at hfills hleft hopp hown
  have hunused : Unused s o.orderId := by
    intro side r hr heq
    exact hid (h.live_iff.mpr ⟨r, mem_restingOrders_iff_queueOf.mpr ⟨side, hr⟩, heq⟩)
  have htrades : (placeOrder o q s).fills.map flatTrade =
      (sweepFlat o q b.resting).fills.map (FlatTrade.between o) := by
    rw [hfills, hffills]
    simp only [List.map_map]
    apply List.map_congr_left
    intro p _
    exact flatTrade_fillOf o (p.1.terms, p.2)
  -- the flat book after the sweep, before anything is filed
  have hswept : ∀ s', queueOf s' o.side = queueOf s o.side →
      queueOf s' o.side.opposite = queueOf (placeOrder o q s).sides o.side.opposite →
      Refines s' ⟨(sweepFlat o q b.resting).resting, b.clock⟩ := by
    intro s' hown' hopp'
    exact h.of_swept hq hperm hsorted hown' (hopp'.trans hopp)
  by_cases hrests : o.orderType = .GoodTillCancel ∧ 0 < (sweepFlat o q b.resting).left
  · obtain ⟨htype, hpos⟩ := hrests
    refine ⟨⟨⟨⟨o, b.clock⟩, (sweepFlat o q b.resting).left⟩ :: (sweepFlat o q b.resting).resting,
      b.clock + 1⟩, ?_, ?_⟩
    · simp [FlatBook.add, hid, htype, hpos, acceptOrder_fills, htrades]
    · have hfile : (sweep (fun x : Stamped => PriceCrosses o x.terms) q l).left =
          some (sweepFlat o q b.resting).left := by
        rcases hW : (sweep (fun x : Stamped => PriceCrosses o x.terms) q l).left with _ | q'
        · rw [hfleft, hW] at hpos
          exact absurd hpos (Nat.lt_irrefl 0)
        · rw [hfleft, hW]
          rfl
      -- the queues after the sweep, before the rest is filed
      obtain ⟨s', hs'own, hs'opp⟩ : ∃ s', queueOf s' o.side = queueOf s o.side ∧
          queueOf s' o.side.opposite = queueOf (placeOrder o q s).sides o.side.opposite := by
        rcases o.side with _ | _
        · exact ⟨⟨s.bids, (placeOrder o q s).sides.asks⟩, rfl, rfl⟩
        · exact ⟨⟨(placeOrder o q s).sides.bids, s.asks⟩, rfl, rfl⟩
      apply (hswept s' hs'own hs'opp).of_filed
      · rw [acceptOrder_own hunused, if_pos htype, hown, hfile, hs'own]
      · rw [acceptOrder_opposite hunused, hs'opp]
  · refine ⟨⟨(sweepFlat o q b.resting).resting, b.clock⟩, ?_, ?_⟩
    · simp only [FlatBook.add, if_neg hid, if_neg hrests, acceptOrder_fills, htrades]
    · refine hswept _ ?_ (acceptOrder_opposite hunused)
      rw [acceptOrder_own hunused]
      split_ifs with htype
      · have hzero : (sweepFlat o q b.resting).left = 0 :=
          Nat.eq_zero_of_not_pos fun hpos => hrests ⟨htype, hpos⟩
        rw [hown]
        rcases hW : (sweep (fun x : Stamped => PriceCrosses o x.terms) q l).left with _ | q'
        · rfl
        · rw [hfleft, hW, Option.getD_some] at hzero
          exact absurd (left_pos hq hW) (by omega)
      · rfl

end refines

/-! ## Calls -/

/-- A new order of a positive quantity with nothing filled yet. -/
def Call.Fresh : Call → Prop
  | .addOrder o => o.remainingQuantity = o.initialQuantity ∧ 0 < o.initialQuantity.toNat
  | .cancelOrder _ => True

/-- Whether a call brings a fresh order is decided. -/
instance : (c : Call) → Decidable c.Fresh
  | .addOrder o => inferInstanceAs
      (Decidable (o.remainingQuantity = o.initialQuantity ∧ 0 < o.initialQuantity.toNat))
  | .cancelOrder _ => .isTrue trivial

/-- A trade is between the same two orders and for the same quantity, on both legs. -/
def Trade.Shows (t : Trade) (f : FlatTrade) : Prop :=
  t.bidTrade.orderId = f.bidId ∧ t.askTrade.orderId = f.askId ∧
    t.bidTrade.tradedQuantity.toNat = f.quantity ∧ t.askTrade.tradedQuantity.toNat = f.quantity

/-- The answers agree: the same trades in the same order, and the same acceptance. -/
def Answer.Shows : Answer → FlatAnswer → Prop
  | .added ts submitted, .added fs accepted =>
      List.Forall₂ Trade.Shows ts fs ∧ submitted.isSome = accepted
  | .cancelled success, .cancelled success' => success = success'
  | _, _ => False

/-- A recorded trade shows its deal. -/
theorem Trade.Records.shows {t : Trade} {f : Fill OrderTerms} (h : t.Records f) :
    t.Shows (flatTrade f) := by
  obtain ⟨q, rfl, hq⟩ := h
  exact ⟨rfl, rfl, hq, hq⟩

/-- Recorded trades show their deals. -/
theorem forall₂_shows {ts : Trades} {fs : List (Fill OrderTerms)}
    (h : List.Forall₂ Trade.Records ts fs) :
    List.Forall₂ Trade.Shows ts (fs.map flatTrade) := by
  rw [List.forall₂_map_right_iff]
  exact h.imp fun _ _ => Trade.Records.shows

section calls

variable {s s' : Store} {b : FlatBook} {c : Call} {a : Answer}

/-- An id is live in the flat book exactly if the index has it. -/
theorem Refines.live_iff_mem (h : Refines s.sides b) (hw : WellIndexed s) {id : OrderId} :
    b.Live id ↔ id ∈ s.book.ordersMap := by
  rw [h.live_iff, hw.mem_ordersMap_iff]
  constructor
  · rintro ⟨r, hr, hid⟩
    obtain ⟨n, hn, rfl⟩ := mem_restingOrders.mp hr
    exact ⟨n, hn, hid⟩
  · rintro ⟨n, hn, hid⟩
    exact ⟨_, mem_restingOrders.mpr ⟨n, hn, rfl⟩, hid⟩

/-- **One call refines one call.** -/
theorem CallStep.refines (hstep : CallStep s c a s') (hi : Invariant s) (h : Refines s.sides b)
    (hfresh : c.Fresh) : a.Shows (b.call c).1 ∧ Refines s'.sides (b.call c).2 := by
  -- an order that is handed back has been placed in the queues, also one that was turned away
  have htaken : ∀ o ts p, c = .addOrder o → a = .added ts (some p) →
      a.Shows (b.call c).1 ∧ Refines s'.sides (b.call c).2 := by
    rintro o ts p rfl rfl
    obtain ⟨hrem, hpos⟩ := hfresh
    rw [← hrem] at hpos
    have hhandled := hstep.handled hi
    have hlive : ¬ b.Live o.orderId := by
      rw [h.live_iff_mem hi.toWellIndexed]
      exact hi.toWellIndexed.unused_iff.mp hhandled.unused
    obtain ⟨b', hadd, hR⟩ := h.add hpos hlive
    rw [hrem] at hadd
    simp only [FlatBook.call, hadd]
    refine ⟨⟨?_, rfl⟩, ?_⟩
    · rw [← hrem]
      exact forall₂_shows hhandled.records
    · rw [hhandled.sides]
      exact hR
  cases hstep with
  | refused o hid =>
      have hlive : b.Live o.orderId := (h.live_iff_mem hi.toWellIndexed).mpr hid
      simp only [FlatBook.call, FlatBook.add, if_pos hlive]
      refine ⟨⟨.nil, rfl⟩, ?_⟩
      rw [hi.alloc_sides]
      exact h
  | turnedAway o _ _ _ => exact htaken o _ _ rfl rfl
  | accepted o ts s' _ _ _ => exact htaken o _ _ rfl rfl
  | notFound id hid =>
      have hlive : ¬ b.Live id := fun hl => hid ((h.live_iff_mem hi.toWellIndexed).mp hl)
      simp only [FlatBook.call, FlatBook.cancel, if_neg hlive]
      exact ⟨rfl, h⟩
  | cancelled n s' hn hremoved =>
      have hlive : b.Live (s.idAt n) :=
        (h.live_iff_mem hi.toWellIndexed).mpr (hi.mem_ordersMap_iff.mpr ⟨n, hn, rfl⟩)
      simp only [FlatBook.call, FlatBook.cancel, if_pos hlive]
      refine ⟨rfl, ?_⟩
      rw [hremoved.sides hi.toWellIndexed hn]
      exact h.withdraw _

/-- **A run of calls** is answered as the flat book answers. -/
theorem CallSteps.refines {cs : List Call} {as : List Answer} (hsteps : CallSteps s cs as s')
    (hi : Invariant s) (h : Refines s.sides b) (hfresh : ∀ c ∈ cs, c.Fresh) :
    List.Forall₂ Answer.Shows as (b.calls cs).1 ∧ Refines s'.sides (b.calls cs).2 := by
  induction hsteps generalizing b with
  | nil s => exact ⟨.nil, h⟩
  | cons hstep _ ih =>
      obtain ⟨hfirst, hrest⟩ := List.forall_mem_cons.mp hfresh
      obtain ⟨hshows, hR⟩ := hstep.refines hi h hfirst
      obtain ⟨hshows', hR'⟩ := ih (hstep.invariant hi) hR hrest
      exact ⟨.cons hshows hshows', hR'⟩

end calls

/-- The empty book refines the empty flat book. -/
theorem refines_empty : Refines Store.empty.sides FlatBook.empty where
  lists side := by
    refine ⟨[], ?_, List.Pairwise.nil, ?_⟩
    · exact List.Perm.refl _
    · rcases side <;> rfl
  stamps r hr := by cases hr

/-- **Price-time priority.** Over every run of calls with new orders of positive quantities, the
order book answers what the flat specification answers, call by call, and after the run its two
sides list the specification's resting orders in priority order, with the same quantities open. -/
theorem orderBook_priceTime (cs : List Call) (hfresh : ∀ c ∈ cs, c.Fresh) :
    ∃ as s, (calls cs).run Store.empty = .returned as s ∧
      List.Forall₂ Answer.Shows as (FlatBook.empty.calls cs).1 ∧
      ∀ side, (FlatBook.empty.calls cs).2.Lists side (queueOf s.sides side) := by
  obtain ⟨as, s, hrun, hsteps⟩ := calls_steps invariant_empty cs
  obtain ⟨hshows, hR⟩ := hsteps.refines invariant_empty refines_empty hfresh
  exact ⟨as, s, hrun, hshows, hR.lists⟩

/-- Two resting bids at one price, hit by a larger ask, and a cancel of its rest. -/
theorem orderBook_priceTime_two_bids :
    let cs : List Call := [.addOrder (Order.new .GoodTillCancel 1 .Buy 100 5),
      .addOrder (Order.new .GoodTillCancel 2 .Buy 100 7),
      .addOrder (Order.new .GoodTillCancel 3 .Sell 99 20), .cancelOrder 3]
    ∃ as s, (calls cs).run Store.empty = .returned as s ∧
      List.Forall₂ Answer.Shows as (FlatBook.empty.calls cs).1 ∧
      ∀ side, (FlatBook.empty.calls cs).2.Lists side (queueOf s.sides side) :=
  orderBook_priceTime _ (by decide)

end FlowManager.Book
