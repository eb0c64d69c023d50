import FlowManager.Book.Snapshot
import FlowManager.Book.Steps

/-!
# When the snapshot is exact

`GetOrderInfos` adds up a level in the type of quantities. Of a book that a run of calls has left
it shows a level for every price at which an order rests, in the order of the side, with the best
bid below the best ask; and it shows what is open at every price exactly when no level has
`2 ^ 32` or more open (`snapshot_exact_iff`).
-/

namespace FlowManager.Book

open FlowManager.Lib FlowManager.Lib.PriceTime

/-- The levels shown of a side are those of its queue: one for each price, in strict order, with
the whole quantity that is open there. -/
structure ExactLevels (before : Price → Price → Prop) (infos : List LevelInfo)
    (rs : List (Resting OrderTerms)) : Prop where
  sorted : infos.Pairwise fun x y => before x.price y.price
  prices : ∀ p, (∃ level ∈ infos, level.price = p) ↔ Priced rs p
  quantities : ∀ level ∈ infos, level.quantity.toNat = openAt rs level.price

/-- The snapshot shows the book as it is. -/
structure ExactSnapshot (infos : OrderBookLevelInfos) (s : Store) : Prop where
  bids : ExactLevels (· > ·) infos.bids s.sides.bids
  asks : ExactLevels (· < ·) infos.asks s.sides.asks
  spread : ∀ b ∈ infos.bids.head?, ∀ a ∈ infos.asks.head?, b.price < a.price

section levels

variable {r : Price → Price → Prop} [IsStrictTotalOrder Price r] {heap : OrderPointer → Order}
  {side : Side} {levels : OrderedMap Price OrderPointers r}

/-- A level is shown at every price at which an order rests. -/
theorem exists_levelInfo_iff (h : SideOk heap side levels) (p : Price) :
    (∃ level ∈ levelInfos heap levels, level.price = p) ↔ Priced (queueIn heap levels) p := by
  constructor
  · rintro ⟨level, hlevel, rfl⟩
    exact ((mem_levelInfos_iff h).mp hlevel).1
  · intro hp
    refine ⟨⟨p, UInt32.ofNat (openAt (queueIn heap levels) p)⟩, ?_, rfl⟩
    exact (mem_levelInfos_iff h).mpr ⟨hp, rfl⟩

/-- **The levels of a side are exact** if and only if what is open at a price does not wrap. -/
theorem exactLevels_iff (h : SideOk heap side levels) :
    ExactLevels r (levelInfos heap levels) (queueIn heap levels) ↔
      ∀ p, openAt (queueIn heap levels) p < 2 ^ 32 := by
  constructor
  · intro hexact p
    by_cases hp : Priced (queueIn heap levels) p
    · obtain ⟨level, hlevel, rfl⟩ := (hexact.prices p).mpr hp
      rw [← hexact.quantities level hlevel]
      exact level.quantity.toNat_lt
    · rw [openAt_of_not_priced hp]
      exact Nat.two_pow_pos 32
  · intro hopen
    refine ⟨levelInfos_pairwise heap levels, exists_levelInfo_iff h, ?_⟩
    intro level hlevel
    rw [((mem_levelInfos_iff h).mp hlevel).2]
    exact UInt32.toNat_ofNat_of_lt' (hopen level.price)

end levels

/-- The best bid that is shown is below the best ask. -/
theorem Invariant.spread {s : Store} (hi : Invariant s) :
    ∀ b ∈ (levelInfos s.heap s.book.bids).head?, ∀ a ∈ (levelInfos s.heap s.book.asks).head?,
      b.price < a.price := by
  intro b hb a ha
  obtain ⟨x, hx, hxp⟩ := ((mem_levelInfos_iff hi.bids).mp (List.mem_of_mem_head? hb)).1
  obtain ⟨y, hy, hyp⟩ := ((mem_levelInfos_iff hi.asks).mp (List.mem_of_mem_head? ha)).1
  rw [← hxp, ← hyp]
  exact hi.uncrossed x hx y hy

/-- The snapshot is exact exactly where no price has `2 ^ 32` open. -/
theorem Invariant.exactSnapshot_iff {s : Store} (hi : Invariant s) :
    ExactSnapshot ⟨levelInfos s.heap s.book.bids, levelInfos s.heap s.book.asks⟩ s ↔
      ∀ side p, openAt (queueOf s.sides side) p < 2 ^ 32 := by
  constructor
  · intro hexact side p
    cases side with
    | Buy => exact (exactLevels_iff hi.bids).mp hexact.bids p
    | Sell => exact (exactLevels_iff hi.asks).mp hexact.asks p
  · intro hopen
    exact ⟨(exactLevels_iff hi.bids).mpr (hopen .Buy), (exactLevels_iff hi.asks).mpr (hopen .Sell),
      hi.spread⟩

/-- **The snapshot is exact if and only if no level holds `2 ^ 32` or more**, in every book that a
run of calls leaves. -/
theorem snapshot_exact_iff (cs : List Call) :
    ∃ as s infos, (calls cs).run Store.empty = .returned as s ∧
      getOrderInfos.run s = .returned infos s ∧
      (ExactSnapshot infos s ↔ ∀ side p, openAt (queueOf s.sides side) p < 2 ^ 32) := by
  obtain ⟨as, s, hrun, hsteps⟩ := calls_steps invariant_empty cs
  exact ⟨as, s, _, hrun, rfl, (hsteps.invariant invariant_empty).exactSnapshot_iff⟩

/-- Two bids at one price with `2 ^ 32 - 1` and 1 open. -/
def overfullLevel : List Call :=
  [.addOrder (Order.new .GoodTillCancel 1 .Buy 100 4294967295),
    .addOrder (Order.new .GoodTillCancel 2 .Buy 100 1)]

/-- A level with `2 ^ 32` open is shown with the quantity 0. -/
theorem snapshot_exact_fails :
    ¬ ∀ (cs : List Call) (as : List Answer) (s : Store) (infos : OrderBookLevelInfos),
      (calls cs).run Store.empty = .returned as s → getOrderInfos.run s = .returned infos s →
      ExactSnapshot infos s := by
  intro h
  obtain ⟨as, s, hrun, hsteps⟩ := calls_steps invariant_empty overfullLevel
  have hstate : s = ((calls overfullLevel).run Store.empty).state := by rw [hrun]; rfl
  have hopen := (hsteps.invariant invariant_empty).exactSnapshot_iff.mp
    (h overfullLevel as s _ hrun rfl) .Buy 100
  rw [hstate] at hopen
  revert hopen
  decide

end FlowManager.Book
