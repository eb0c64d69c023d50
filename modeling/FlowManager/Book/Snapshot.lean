import FlowManager.Book.LevelInfos
import FlowManager.Book.Part

/-!
# What the snapshot shows

The levels of `GetOrderInfos` are read off the queue of a side: a level for every price at which
an order rests, in the order of the side, with what is open there modulo `2 ^ 32`
(`mem_levelInfos_iff`).

So two queues show the same levels exactly when they have orders at the same prices and the totals
agree modulo `2 ^ 32` (`levelInfos_eq_iff`), and a part of a queue shows the levels of the whole
exactly when the rest of it is hidden (`levelInfos_part_iff`).
-/

namespace FlowManager.Book

open FlowManager.Lib FlowManager.Lib.PriceTime

/-! ## One price of a queue -/

/-- An order rests at the price. -/
def Priced (rs : List (Resting OrderTerms)) (p : Price) : Prop := ∃ r ∈ rs, r.terms.price = p

/-- What is open at a price. -/
def openAt (rs : List (Resting OrderTerms)) (p : Price) : ℕ :=
  ((rs.filter fun r => decide (r.terms.price = p)).map Resting.qty).sum

/-- A price at which nothing rests has nothing open. -/
theorem openAt_of_not_priced {rs : List (Resting OrderTerms)} {p : Price} (h : ¬ Priced rs p) :
    openAt rs p = 0 := by
  have hnil : rs.filter (fun r => decide (r.terms.price = p)) = [] := by
    rw [List.filter_eq_nil_iff]
    intro r hr
    rw [decide_eq_true_eq]
    exact fun heq => h ⟨r, hr, heq⟩
  unfold openAt
  rw [hnil]
  rfl

/-- What is open at a price is open in a part or in the rest. -/
theorem openAt_part (keep : Resting OrderTerms → Bool) (rs : List (Resting OrderTerms)) (p : Price) :
    openAt (rs.filter keep) p + openAt (rs.filter fun r => !keep r) p = openAt rs p := by
  unfold openAt
  rw [← List.sum_append, ← List.map_append, ← List.filter_append]
  exact (((List.filter_append_perm keep rs).filter _).map Resting.qty).sum_eq

/-! ## Levels -/

section levels

variable {r : Price → Price → Prop} {heap heap' : OrderPointer → Order} {side : Side}
  {levels levels' : OrderedMap Price OrderPointers r}

/-- The queue of a side. -/
def queueIn (heap : OrderPointer → Order) (levels : OrderedMap Price OrderPointers r) :
    List (Resting OrderTerms) :=
  levels.flat.map fun n => (heap n.order).resting

/-- The prices of a queue are those of its nodes. -/
theorem priced_queueIn_iff {p : Price} :
    Priced (queueIn heap levels) p ↔ ∃ n ∈ levels.flat, (heap n.order).price = p := by
  unfold Priced queueIn
  constructor
  · rintro ⟨_, hx, hp⟩
    obtain ⟨n, hn, rfl⟩ := List.mem_map.mp hx
    exact ⟨n, hn, hp⟩
  · rintro ⟨n, hn, hp⟩
    exact ⟨_, List.mem_map_of_mem hn, hp⟩

/-- The sum of a level, in the type of quantities. -/
theorem foldl_quantity (ordersAtLevel : OrderPointers) (total : Quantity) :
    ordersAtLevel.foldl (fun total n => total + (heap n.order).remainingQuantity) total =
      total + UInt32.ofNat
        (ordersAtLevel.map fun n => (heap n.order).remainingQuantity.toNat).sum := by
  induction ordersAtLevel generalizing total with
  | nil => exact (UInt32.add_zero total).symm
  | cons n ns ih =>
      rw [List.foldl_cons, ih, List.map_cons, List.sum_cons, UInt32.ofNat_add,
        UInt32.ofNat_toNat, UInt32.add_assoc]

/-- The level of an entry shows what is open at its price. -/
theorem createLevelInfoFromOrders_eq [IsStrictTotalOrder Price r] (h : SideOk heap side levels)
    {p : Price} {ns : OrderPointers} (he : (p, ns) ∈ levels.entries) :
    createLevelInfoFromOrders heap p ns = ⟨p, UInt32.ofNat (openAt (queueIn heap levels) p)⟩ := by
  have hns := OrderedMap.filter_flat_of_mem h.keyed he
  have hopen : openAt (queueIn heap levels) p =
      (ns.map fun n => (heap n.order).remainingQuantity.toNat).sum := by
    unfold openAt queueIn
    rw [List.filter_map, List.map_map]
    show ((levels.flat.filter fun n => decide ((heap n.order).price = p)).map _).sum = _
    rw [hns]
    rfl
  unfold createLevelInfoFromOrders
  rw [foldl_quantity, UInt32.zero_add, hopen]

/-- **A level is shown for every price at which an order rests**, with what is open there. -/
theorem mem_levelInfos_iff [IsStrictTotalOrder Price r] (h : SideOk heap side levels)
    {level : LevelInfo} :
    level ∈ levelInfos heap levels ↔ Priced (queueIn heap levels) level.price ∧
      level.quantity = UInt32.ofNat (openAt (queueIn heap levels) level.price) := by
  unfold levelInfos
  rw [List.mem_map]
  constructor
  · rintro ⟨⟨p, ns⟩, he, rfl⟩
    obtain ⟨he, hne⟩ := List.mem_filter.mp he
    rw [createLevelInfoFromOrders_eq h he]
    refine ⟨priced_queueIn_iff.mpr ?_, rfl⟩
    cases ns with
    | nil => cases hne
    | cons n ns =>
        exact ⟨n, OrderedMap.mem_flat.mpr ⟨_, he, List.mem_cons_self⟩,
          h.keyed _ he n List.mem_cons_self⟩
  · rintro ⟨hpriced, hquantity⟩
    obtain ⟨n, hn, hprice⟩ := priced_queueIn_iff.mp hpriced
    obtain ⟨⟨p, ns⟩, he, hns⟩ := OrderedMap.mem_flat.mp hn
    have hp : p = level.price := (h.keyed _ he n hns).symm.trans hprice
    subst hp
    refine ⟨(level.price, ns), List.mem_filter.mpr ⟨he, ?_⟩, ?_⟩
    · cases ns with
      | nil => exact absurd hns List.not_mem_nil
      | cons _ _ => rfl
    · rw [createLevelInfoFromOrders_eq h he, ← hquantity]

/-- Levels are shown in the order of the side. -/
theorem levelInfos_pairwise (heap : OrderPointer → Order)
    (levels : OrderedMap Price OrderPointers r) :
    (levelInfos heap levels).Pairwise fun x y => r x.price y.price :=
  List.pairwise_map.mpr (levels.sorted.filter _)

/-- **Two sides show the same levels** exactly when orders rest at the same prices and as much is
open there, modulo `2 ^ 32`. -/
theorem levelInfos_eq_iff [IsStrictTotalOrder Price r] (h : SideOk heap side levels)
    (h' : SideOk heap' side levels') :
    levelInfos heap' levels' = levelInfos heap levels ↔
      ∀ p, (Priced (queueIn heap' levels') p ↔ Priced (queueIn heap levels) p) ∧
        openAt (queueIn heap' levels') p % 2 ^ 32 = openAt (queueIn heap levels) p % 2 ^ 32 := by
  have hmod : ∀ a b : ℕ, UInt32.ofNat a = UInt32.ofNat b ↔ a % 2 ^ 32 = b % 2 ^ 32 := by
    intro a b
    rw [← UInt32.toNat_inj, UInt32.toNat_ofNat', UInt32.toNat_ofNat']
  constructor
  · intro heq p
    have hmem : ∀ level, level ∈ levelInfos heap' levels' ↔ level ∈ levelInfos heap levels := by
      intro level
      rw [heq]
    by_cases hp : Priced (queueIn heap levels) p
    · have hlevel := (hmem ⟨p, UInt32.ofNat (openAt (queueIn heap levels) p)⟩).mpr
        ((mem_levelInfos_iff h).mpr ⟨hp, rfl⟩)
      obtain ⟨hp', hopen⟩ := (mem_levelInfos_iff h').mp hlevel
      exact ⟨⟨fun _ => hp, fun _ => hp'⟩, (hmod _ _).mp hopen.symm⟩
    · have hp' : ¬ Priced (queueIn heap' levels') p := by
        intro hp'
        have hlevel := (hmem ⟨p, UInt32.ofNat (openAt (queueIn heap' levels') p)⟩).mp
          ((mem_levelInfos_iff h').mpr ⟨hp', rfl⟩)
        exact hp ((mem_levelInfos_iff h).mp hlevel).1
      rw [openAt_of_not_priced hp, openAt_of_not_priced hp']
      exact ⟨⟨fun h => absurd h hp', fun h => absurd h hp⟩, rfl⟩
  · intro hsame
    have : Std.Irrefl fun x y : LevelInfo => r x.price y.price :=
      ⟨fun x => irrefl_of r x.price⟩
    have : Std.Antisymm fun x y : LevelInfo => r x.price y.price :=
      ⟨fun _ _ hxy hyx => absurd hyx (asymm_of r hxy)⟩
    apply (levelInfos_pairwise heap' levels').eq_of_mem_iff (levelInfos_pairwise heap levels)
    intro level
    obtain ⟨hpriced, hopen⟩ := hsame level.price
    rw [mem_levelInfos_iff h, mem_levelInfos_iff h', hpriced, (hmod _ _).mpr hopen]

end levels

/-! ## A part of the levels -/

/-- What does not belong to the part does not show: an order of the part rests at the same price,
and the rest there adds up to a multiple of `2 ^ 32`. -/
def Hidden (keep : Resting OrderTerms → Bool) (rs : List (Resting OrderTerms)) : Prop :=
  ∀ x ∈ rs, keep x = false → Priced (rs.filter keep) x.terms.price ∧
    openAt (rs.filter fun r => !keep r) x.terms.price % 2 ^ 32 = 0

/-- Orders are hidden if without them every price is there as before, with as much open modulo `2 ^
32`. -/
theorem hidden_iff {keep : Resting OrderTerms → Bool} {rs : List (Resting OrderTerms)} :
    Hidden keep rs ↔ ∀ p, (Priced (rs.filter keep) p ↔ Priced rs p) ∧
      openAt (rs.filter keep) p % 2 ^ 32 = openAt rs p % 2 ^ 32 := by
  constructor
  · intro h p
    have hsum := openAt_part keep rs p
    by_cases hrest : Priced (rs.filter fun r => !keep r) p
    · obtain ⟨x, hx, rfl⟩ := hrest
      obtain ⟨hx, hkeep⟩ := List.mem_filter.mp hx
      obtain ⟨hpriced, hopen⟩ := h x hx (by simpa using hkeep)
      exact ⟨⟨fun _ => ⟨x, hx, rfl⟩, fun _ => hpriced⟩, by omega⟩
    · rw [openAt_of_not_priced hrest] at hsum
      refine ⟨⟨?_, ?_⟩, by rw [← hsum]; rfl⟩
      · rintro ⟨x, hx, hp⟩
        exact ⟨x, List.mem_of_mem_filter hx, hp⟩
      · rintro ⟨x, hx, hp⟩
        cases hkeep : keep x with
        | true => exact ⟨x, List.mem_filter.mpr ⟨hx, hkeep⟩, hp⟩
        | false =>
            exact absurd ⟨x, List.mem_filter.mpr ⟨hx, by rw [hkeep]; rfl⟩, hp⟩ hrest
  · intro h x hx _
    obtain ⟨hpriced, hopen⟩ := h x.terms.price
    have hsum := openAt_part keep rs x.terms.price
    exact ⟨hpriced.mpr ⟨x, hx, rfl⟩, by omega⟩

/-- Nothing of the other orders shows on either side of the book. -/
def AllHidden (own : OrderId → Bool) (s : Sides OrderTerms) : Prop :=
  ∀ side, Hidden (ofPart own) (queueOf s side)

/-- **A part of the book shows the levels of the book** exactly when the rest of the book is
hidden. -/
theorem IsPart.levelInfos_eq_iff {own : OrderId → Bool} {s t : Store}
    (h : IsPart own s.sides t.sides) (hs : WellIndexed s) (ht : WellIndexed t) :
    (levelInfos t.heap t.book.bids = levelInfos s.heap s.book.bids ∧
      levelInfos t.heap t.book.asks = levelInfos s.heap s.book.asks) ↔
        AllHidden own s.sides := by
  have hbids := FlowManager.Book.levelInfos_eq_iff hs.bids ht.bids
  have hasks := FlowManager.Book.levelInfos_eq_iff hs.asks ht.asks
  have hb : queueIn t.heap t.book.bids = (queueIn s.heap s.book.bids).filter (ofPart own) :=
    h .Buy
  have ha : queueIn t.heap t.book.asks = (queueIn s.heap s.book.asks).filter (ofPart own) :=
    h .Sell
  rw [hb, ← hidden_iff] at hbids
  rw [ha, ← hidden_iff] at hasks
  rw [hbids, hasks]
  constructor
  · rintro ⟨hbuy, hsell⟩ side
    cases side with
    | Buy => exact hbuy
    | Sell => exact hsell
  · intro hall
    exact ⟨hall .Buy, hall .Sell⟩

end FlowManager.Book
