import FlowManager.Book.View

/-!
# The progress of the matching loops

`MatchOrders` is a `while (true)` around a loop whose passes may trade the quantity 0, so traded
quantity does not measure how far it has come. What each pass takes away does: a pass of the inner
loop takes an order off the front of a level (`FrontPass`), and a pass of the outer loop drops a
best level (`LevelPass`). A pass of the inner loop makes one trade, so there are no more trades
than orders at the start, which is what the source reserves (`matchOrders_progress`). The book may
be crossed before, and quantities may be 0.
-/

namespace FlowManager.Book

open FlowManager.Lib FlowManager.Lib.PriceTime

variable {s s' : Store} {pb pa : Price} {ts : Trades}

/-- A pass of the inner loop that goes on.
Source: `order_book.cpp`, `OrderBook::MatchOrders`, lines 38-62 -/
structure FrontPass (pb pa : Price) (s : Store) (ts : Trades) (s' : Store) : Prop where
  run : (matchFronts pb pa).run s = .returned (some ts) s'
  one : ts.length = 1
  /-- The first order of the bid level, of the ask level or of both is gone. -/
  popped : ∃ b lb a la lb' la',
    s.book.bids.find? pb = some (b :: lb) ∧ s.book.asks.find? pa = some (a :: la) ∧
      s'.book.bids.find? pb = some lb' ∧ s'.book.asks.find? pa = some la' ∧
      (lb' = lb ∨ lb' = b :: lb) ∧ (la' = la ∨ la' = a :: la) ∧ (lb' = lb ∨ la' = la)
  fewer : s'.nodes.length < s.nodes.length

/-- A pass of the outer loop that finds a cross.
Source: `order_book.cpp`, `OrderBook::MatchOrders`, lines 25-66 -/
structure LevelPass (s : Store) (ts : Trades) (s' : Store) : Prop where
  run : matchLevels.run s = .returned (some ts) s'
  /-- The best levels cross, and the inner loop runs between them until it ends. -/
  inner : ∃ eb ∈ s.book.bids.begin?, ∃ ea ∈ s.book.asks.begin?, ¬ eb.1 < ea.1 ∧
    ∃ t, Proc.Trace (FrontPass eb.1 ea.1) s ts t ∧
      (matchFronts eb.1 ea.1).run t = .returned none t ∧ s'.nodes.length ≤ t.nodes.length
  /-- The best bid level or the best ask level is gone. -/
  dropped : s'.book.bids.entries = s.book.bids.entries.tail ∨
    s'.book.asks.entries = s.book.asks.entries.tail
  fewer : levelCount s' < levelCount s

/-- The index has as many entries as the book has nodes. -/
theorem WellIndexed.size_eq (h : WellIndexed s) : s.book.size = s.nodes.length := by
  have hkeys : s.book.ordersMap.keys = (s.nodes.map s.idAt).toFinset := by
    ext id
    rw [Finmap.mem_keys, h.mem_ordersMap_iff, List.mem_toFinset, List.mem_map]
  unfold OrderBook.size
  have hnodup : (s.nodes.map s.idAt).Nodup := h.nodes.ids_nodup
  rw [hkeys, List.toFinset_card_of_nodup hnodup, List.length_map]

/-- The nodes of two sides whose first levels are known. -/
theorem length_nodes_of_heads {lb la : OrderPointers} {eb ea : List (Price × OrderPointers)}
    (hb : s.book.bids.entries = (pb, lb) :: eb) (ha : s.book.asks.entries = (pa, la) :: ea) :
    s.nodes.length =
      lb.length + (eb.flatMap Prod.snd).length + (la.length + (ea.flatMap Prod.snd).length) := by
  unfold Store.nodes Store.bidNodes Store.askNodes OrderedMap.flat
  rw [hb, ha, List.length_append, List.flatMap_cons, List.flatMap_cons, List.length_append,
    List.length_append]

/-- **A pass of the inner loop takes an order off the front of a level**, and only the two best
levels change. -/
theorem frontPass_of_run {eb ea : List (Price × OrderPointers)} (hcross : ¬ pb < pa)
    (hinv : BestLevels pb pa eb ea s) (hrun : (matchFronts pb pa).run s = .returned (some ts) s') :
    FrontPass pb pa s ts s' ∧ BestLevels pb pa eb ea s' := by
  obtain ⟨hw, lb, la, hb, ha⟩ := hinv
  have hfb := find?_of_head hb
  have hfa := find?_of_head ha
  rcases lb with _ | ⟨b, lb⟩
  · rw [matchFronts_ends hfb hfa (Or.inl rfl)] at hrun
    cases hrun
  rcases la with _ | ⟨a, la⟩
  · rw [matchFronts_ends hfb hfa (Or.inr rfl)] at hrun
    cases hrun
  obtain ⟨t, s₁, hrun₁, hmatched, hb', ha', hfilled⟩ := matchFronts_trades hw hb ha hcross
  rw [hrun₁] at hrun
  cases hrun
  refine ⟨⟨hrun₁, rfl, ⟨b, lb, a, la, _, _, hfb, hfa, find?_of_head hb', find?_of_head ha',
    ?_, ?_, ?_⟩, ?_⟩, hmatched.wellIndexed, _, _, hb', ha'⟩
  · by_cases h : (s'.orderAt b).isFilled = true
    · exact Or.inl (if_pos h)
    · exact Or.inr (if_neg h)
  · by_cases h : (s'.orderAt a).isFilled = true
    · exact Or.inl (if_pos h)
    · exact Or.inr (if_neg h)
  · exact hfilled.imp (fun h => if_pos h) fun h => if_pos h
  · rw [length_nodes_of_heads hb' ha', length_nodes_of_heads hb ha, List.length_cons,
      List.length_cons]
    rcases hfilled with hfilled | hfilled
    · rw [if_pos hfilled]
      split_ifs
      · omega
      · rw [List.length_cons]
        omega
    · rw [if_pos (c := ((s'.orderAt a).isFilled = true)) hfilled]
      split_ifs
      · omega
      · rw [List.length_cons]
        omega

/-- The pass that ends the inner loop changes nothing. -/
theorem eq_of_matchFronts_none {eb ea : List (Price × OrderPointers)} (hcross : ¬ pb < pa)
    (hinv : BestLevels pb pa eb ea s) (hrun : (matchFronts pb pa).run s = .returned none s') :
    s = s' := by
  rcases matchFronts_pass hcross s hinv with ⟨hends, -⟩ | ⟨_, _, hgoes, -⟩
  · rw [hends] at hrun
    cases hrun
    rfl
  · rw [hgoes] at hrun
    cases hrun

/-- **A pass of the outer loop that goes on has found a cross and drops a level.** -/
theorem levelPass_of_run (hinv : LevelsFilled s)
    (hrun : matchLevels.run s = .returned (some ts) s') :
    LevelPass s ts s' ∧ LevelsFilled s' := by
  obtain ⟨hw, hbids, hasks⟩ := hinv
  rcases hb : s.book.bids.entries with _ | ⟨⟨pb, lb⟩, eb⟩
  · have hfb : s.book.bids.begin? = none := by simp [OrderedMap.begin?, hb]
    simp [matchLevels, hfb] at hrun
  have hfb : s.book.bids.begin? = some (pb, lb) := by simp [OrderedMap.begin?, hb]
  rcases ha : s.book.asks.entries with _ | ⟨⟨pa, la⟩, ea⟩
  · have hfa : s.book.asks.begin? = none := by simp [OrderedMap.begin?, ha]
    simp [matchLevels, hfb, hfa] at hrun
  have hfa : s.book.asks.begin? = some (pa, la) := by simp [OrderedMap.begin?, ha]
  by_cases hlt : pb < pa
  · simp [matchLevels, hfb, hfa, hlt] at hrun
  obtain ⟨ts₁, s₁, s₂, hloop, hrun₁, hmatched, hclosed, hbids', hasks', hdropped, hfewer⟩ :=
    matchLevels_returns hw hb ha hlt hbids hasks
  rw [hrun₁] at hrun
  cases hrun
  obtain ⟨t, htrace, hexit⟩ := Proc.collect_eq_returned hloop
  have hstart : BestLevels pb pa eb ea s := ⟨hw, lb, la, hb, ha⟩
  have hpass : ∀ s out s', BestLevels pb pa eb ea s →
      (matchFronts pb pa).run s = .returned (some out) s' →
      FrontPass pb pa s out s' ∧ BestLevels pb pa eb ea s' := fun _ _ _ => frontPass_of_run hlt
  obtain ⟨hpasses, hend⟩ := htrace.imp hpass hstart
  have hsame := eq_of_matchFronts_none hlt hend hexit
  rw [← hsame] at hexit hclosed
  refine ⟨⟨hrun₁, ⟨(pb, lb), hfb, (pa, la), hfa, hlt, t, hpasses, hexit, ?_⟩, ?_, hfewer⟩,
    hclosed.wellIndexed, hbids', hasks'⟩
  · exact hclosed.nodes_sublist.length_le
  · rw [hb, ha]
    exact hdropped

/-- Trades are paid for with orders. -/
theorem LevelPass.length_add_le (h : LevelPass s ts s') :
    ts.length + s'.nodes.length ≤ s.nodes.length := by
  obtain ⟨_, _, _, _, _, t, htrace, -, hle⟩ := h.inner
  have hloop : ts.length + t.nodes.length ≤ s.nodes.length := by
    apply htrace.length_add_le
    intro s out s' hpass
    rw [hpass.one]
    have := hpass.fewer
    omega
  omega

/-- **`MatchOrders` terminates within its reservation.** From any book without empty levels whose
index matches its levels, crossed or not and with any quantities, it returns. Its run is a
sequence of passes each of which drops a level, and in which every pass of the inner loop takes an
order off the front of a level. It makes no more trades than orders rested at the start, and
leaves an uncrossed book without empty levels. -/
theorem matchOrders_progress (hw : WellIndexed s) (hbids : NoEmptyLevel s.book.bids)
    (hasks : NoEmptyLevel s.book.asks) :
    ∃ ts s', matchOrders.run s = .returned ts s' ∧ Proc.Trace LevelPass s ts s' ∧
      matchLevels.run s' = .returned none s' ∧
      s.book.size = s.nodes.length ∧ ts.length ≤ s.book.size ∧
      Uncrossed s'.sides ∧ NoEmptyLevel s'.book.bids ∧ NoEmptyLevel s'.book.asks := by
  obtain ⟨ts, s', hrun, hmatched, hbids', hasks', hstop⟩ := matchOrders_returns hw hbids hasks
  have hloop := hrun
  rw [matchOrders, Proc.run_bind, Proc.run_get, Outcome.bind_returned] at hloop
  obtain ⟨t, htrace, hexit⟩ := Proc.collect_eq_returned hloop
  have hstart : LevelsFilled s := ⟨hw, hbids, hasks⟩
  have hpass : ∀ s out s', LevelsFilled s → matchLevels.run s = .returned (some out) s' →
      LevelPass s out s' ∧ LevelsFilled s' := fun _ _ _ => levelPass_of_run
  obtain ⟨hpasses, hend⟩ := htrace.imp hpass hstart
  have hsame : t = s' := by
    rcases matchLevels_pass t hend with ⟨hends, -⟩ | ⟨_, _, hgoes, -⟩
    · rw [hends] at hexit
      cases hexit
      rfl
    · rw [hgoes] at hexit
      cases hexit
  subst hsame
  have hpaid : ts.length + t.nodes.length ≤ s.nodes.length := by
    apply hpasses.length_add_le
    intro s out s' hpass
    exact hpass.length_add_le
  refine ⟨ts, t, hrun, hpasses, hexit, hw.size_eq, ?_, ?_, hbids', hasks'⟩
  · rw [hw.size_eq]
    omega
  · exact hmatched.wellIndexed.uncrossed_of_crossStep hstop

/-- A bid above an ask of the quantity 0, both filed and not yet matched. -/
def crossedBook : Store :=
  (Store.empty.filed (Order.new .GoodTillCancel 1 .Sell 90 0)).filed
    (Order.new .GoodTillCancel 2 .Buy 100 5)

/-- A fresh order that has been filed keeps the index. -/
theorem WellIndexed.filed {o : Order} (h : WellIndexed s) (hid : o.orderId ∉ s.book.ordersMap) :
    WellIndexed (s.filed o) := by
  refine (h.alloc o).pushOrder ?_ (Nat.lt_succ_self s.nextOrder)
  rw [alloc_heap_self]
  exact hid

/-- A crossed book in which one order has the quantity 0: at most two trades uncross it. -/
theorem matchOrders_progress_quantity_zero :
    ∃ ts s', matchOrders.run crossedBook = .returned ts s' ∧ ts.length ≤ 2 ∧
      Uncrossed s'.sides := by
  have hbook : WellIndexed crossedBook := by
    unfold crossedBook
    refine WellIndexed.filed (WellIndexed.filed invariant_empty.toWellIndexed ?_) ?_ <;> decide
  obtain ⟨ts, s', hrun, -, -, -, hle, huncrossed, -⟩ :=
    matchOrders_progress hbook (by unfold NoEmptyLevel; decide) (by unfold NoEmptyLevel; decide)
  exact ⟨ts, s', hrun, hle, huncrossed⟩

end FlowManager.Book
