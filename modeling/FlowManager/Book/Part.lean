import FlowManager.Book.Queues
import FlowManager.Lib.InPlace

/-!
# A part of the book

Some of the ids are of interest, and another book has had the calls for these ids only. `IsPart`
says that its queues are the part of the queues of the whole book.

A call for an id of the part does the same in both books, and a call for another id does nothing
to the part, as long as no order reaches an order from across (`IsPart.accept`,
`IsPart.accept_of_not`). A cancel reaches no one.
-/

namespace FlowManager.Book

open FlowManager.Lib FlowManager.Lib.PriceTime

/-! ## Two books -/

section part

variable {own : OrderId → Bool} {s t : Sides OrderTerms} {o : OrderTerms} {q : ℕ}

/-- A resting order is of interest. -/
def ofPart (own : OrderId → Bool) (r : Resting OrderTerms) : Bool := own r.terms.orderId

/-- Whether an order is of the part depends on its terms only. -/
theorem onTerms_ofPart (own : OrderId → Bool) : OnTerms (ofPart own) := fun _ _ _ => rfl

/-- The queues of `t` are the part of the queues of `s` that is of interest. -/
def IsPart (own : OrderId → Bool) (s t : Sides OrderTerms) : Prop :=
  ∀ side, queueOf t side = (queueOf s side).filter (ofPart own)

/-- The incoming order gets to a resting order. -/
def ReachedBy (o : OrderTerms) (q : ℕ) (s : Sides OrderTerms) (x : Resting OrderTerms) : Prop :=
  Reached (PriceCrosses o) q (queueOf s o.side.opposite) x

/-- An id that the book does not have the part does not have. -/
theorem IsPart.unused (h : IsPart own s t) {id : OrderId} (hs : Unused s id) : Unused t id := by
  intro side r hr
  rw [h side] at hr
  exact hs side r (List.mem_of_mem_filter hr)

/-- An id of the part is in the queues of both books or of neither. -/
theorem IsPart.unused_iff (h : IsPart own s t) {id : OrderId} (hid : own id = true) :
    Unused t id ↔ Unused s id := by
  refine ⟨?_, h.unused⟩
  intro ht side r hr heq
  apply ht side r _ heq
  rw [h side]
  refine List.mem_filter.mpr ⟨hr, ?_⟩
  show own r.terms.orderId = true
  rw [heq, hid]

/-- The fills of an accepted order are those of sweeping the other side. -/
theorem acceptOrder_fills_eq (o : OrderTerms) (q : ℕ) (s : Sides OrderTerms) :
    (acceptOrder o q s).fills =
      (sweep (PriceCrosses o) q (queueOf s o.side.opposite)).fills.map (fillOf o) :=
  acceptOrder_fills.trans (placeOrder_queues o q s).1

/-- **The trades of an order** are with the orders that it reaches; one is for nothing where one of
the two has nothing open. -/
theorem exists_reachedBy_of_mem_fills (hsorted : InOrder s) {f : Fill OrderTerms}
    (hf : f ∈ (acceptOrder o q s).fills) :
    ∃ r n, ReachedBy o q s r ∧ f = fillOf o (r.terms, n) ∧ (n = 0 ↔ q = 0 ∨ r.qty = 0) := by
  rw [acceptOrder_fills_eq] at hf
  obtain ⟨⟨x, n⟩, hn, rfl⟩ := List.mem_map.mp hf
  obtain ⟨r, hr, rfl, hzero⟩ := exists_reached_of_mem_fills (hsorted.inPriority o) hn
  exact ⟨r, n, hr, rfl, hzero⟩

/-- An order trades with every order that it reaches. -/
theorem ReachedBy.exists_mem_fills {r : Resting OrderTerms} (h : ReachedBy o q s r)
    (hsorted : InOrder s) :
    ∃ n, fillOf o (r.terms, n) ∈ (acceptOrder o q s).fills ∧ (n = 0 ↔ q = 0 ∨ r.qty = 0) := by
  obtain ⟨n, hn, hzero⟩ := Reached.exists_mem_fills h (hsorted.inPriority o)
  rw [acceptOrder_fills_eq]
  exact ⟨n, List.mem_map_of_mem hn, hzero⟩

/-- **An order of the part does the same in both books**, if it reaches only orders of the
part. -/
theorem IsPart.accept (h : IsPart own s t) (hsorted : InOrder s) (hunused : Unused s o.orderId)
    (ho : own o.orderId = true)
    (hreach : ∀ x, ReachedBy o q s x → own x.terms.orderId = true) :
    (acceptOrder o q t).fills = (acceptOrder o q s).fills ∧
      (acceptOrder o q t).left = (acceptOrder o q s).left ∧
      IsPart own (acceptOrder o q s).sides (acceptOrder o q t).sides := by
  have hunused' := h.unused hunused
  have hsweep := sweep_filter (onTerms_ofPart own) (hsorted.inPriority o) hreach
  rw [← h o.side.opposite] at hsweep
  obtain ⟨hfills, hleft, hopp, hown⟩ := placeOrder_queues o q s
  obtain ⟨hfills', hleft', hopp', hown'⟩ := placeOrder_queues o q t
  rw [hsweep] at hfills' hleft' hopp' hown'
  dsimp only at hfills' hleft' hopp' hown'
  refine ⟨?_, ?_, ?_⟩
  · rw [acceptOrder_fills, acceptOrder_fills, hfills', hfills]
  · rw [acceptOrder_left, acceptOrder_left, hleft', hleft]
  · intro side
    rcases side_eq_or side o.side with rfl | rfl
    · rw [acceptOrder_own hunused, acceptOrder_own hunused']
      split_ifs with htype
      · rw [hown', hown, h o.side]
        exact (file_filter (fun _ => ho) (hsorted.beats o)).symm
      · exact h o.side
    · rw [acceptOrder_opposite hunused, acceptOrder_opposite hunused', hopp', hopp]

/-- **An order that is not of the part leaves the part alone**, if it reaches no order of the
part. -/
theorem IsPart.accept_of_not (h : IsPart own s t) (hsorted : InOrder s)
    (hunused : Unused s o.orderId) (ho : own o.orderId = false)
    (hreach : ∀ x, ReachedBy o q s x → own x.terms.orderId = false) :
    IsPart own (acceptOrder o q s).sides t := by
  obtain ⟨-, -, hopp, hown⟩ := placeOrder_queues o q s
  intro side
  rcases side_eq_or side o.side with rfl | rfl
  · rw [acceptOrder_own hunused, h o.side]
    split_ifs with htype
    · rw [hown]
      exact (filter_file_of_not (fun _ => ho)).symm
    · rfl
  · rw [acceptOrder_opposite hunused, hopp, h o.side.opposite]
    exact (filter_sweep_queue (onTerms_ofPart own) (hsorted.inPriority o) hreach).symm

/-- Withdrawing an id is the same in both books. -/
theorem IsPart.withdraw (h : IsPart own s t) (id : OrderId) :
    IsPart own (withdraw id s) (withdraw id t) := by
  intro side
  rw [queueOf_withdraw, queueOf_withdraw, h side]
  exact List.filter_comm _ _ _

/-- An id is not in the queues if nothing is the part of them that it makes. -/
theorem unused_iff_isPart {id : OrderId} :
    Unused s id ↔ IsPart (fun id' => decide (id' = id)) s ⟨[], []⟩ := by
  have hnil : ∀ side, queueOf (⟨[], []⟩ : Sides OrderTerms) side = [] := by
    intro side
    cases side <;> rfl
  constructor
  · intro h side
    rw [hnil, eq_comm, List.filter_eq_nil_iff]
    intro r hr hid
    exact h side r hr (of_decide_eq_true hid)
  · intro h side r hr heq
    have hpart := h side
    rw [hnil, eq_comm, List.filter_eq_nil_iff] at hpart
    exact hpart r hr (decide_eq_true heq)

/-- An order brings no id into the queues but its own. -/
theorem Unused.accept {id : OrderId} (h : Unused s id) (hsorted : InOrder s)
    (hunused : Unused s o.orderId) (hne : o.orderId ≠ id) :
    Unused (acceptOrder o q s).sides id := by
  apply unused_iff_isPart.mpr
  apply (unused_iff_isPart.mp h).accept_of_not hsorted hunused (decide_eq_false hne)
  intro x hx
  exact decide_eq_false (h _ x hx.mem)

/-- A withdrawal brings no id back. -/
theorem Unused.withdraw {id id' : OrderId} (h : Unused s id) :
    Unused (FlowManager.Book.withdraw id' s) id := by
  intro side r hr
  rw [queueOf_withdraw] at hr
  exact h side r (List.mem_of_mem_filter hr)

/-- Withdrawing an id that is not of the part leaves the part alone. -/
theorem IsPart.withdraw_of_not (h : IsPart own s t) {id : OrderId} (hid : own id = false) :
    IsPart own (FlowManager.Book.withdraw id s) t := by
  have hunused : Unused t id := by
    intro side r hr heq
    rw [h side] at hr
    have hr' : own r.terms.orderId = true := (List.mem_filter.mp hr).2
    rw [heq, hid] at hr'
    cases hr'
  have hboth := h.withdraw id
  rwa [withdraw_of_unused hunused] at hboth

end part

/-! ## What the calls do to the queues -/

section calls

variable {s s' : Store} {o : Order} {ts : Trades} {p : OrderPointer}

section two

variable {t t' : Store} {ts' : Trades} {p' : OrderPointer} {own : OrderId → Bool}

/-- **An order of the part is handled the same in both books**, if it reaches only orders of the
part: the same trades, the same order object, and again a part. -/
theorem Handled.same (h : Handled s o ts p s') (h' : Handled t o ts' p' t')
    (hpart : IsPart own s.sides t.sides) (hw : WellIndexed s) (ho : own o.orderId = true)
    (hreach : ∀ x, ReachedBy o.toOrderTerms o.remainingQuantity.toNat s.sides x →
      own x.terms.orderId = true) :
    ts' = ts ∧ t'.heap p' = s'.heap p ∧ IsPart own s'.sides t'.sides := by
  obtain ⟨hfills, hleft, hpart'⟩ := hpart.accept hw.inOrder h.unused ho hreach
  have hrecords := h'.records
  rw [hfills] at hrecords
  refine ⟨records_unique hrecords h.records, ?_, ?_⟩
  · have hremaining : (t'.heap p').remainingQuantity = (s'.heap p).remainingQuantity := by
      apply UInt32.toNat_inj.mp
      rw [h'.remaining, h.remaining, hleft]
    have hterms := h'.terms.trans h.terms.symm
    cases hx : t'.heap p'
    cases hy : s'.heap p
    rw [hx, hy] at hremaining hterms
    congr
  · rw [h.sides, h'.sides]
    exact hpart'

end two

/-- A trade is between the two orders. -/
def Trade.Joins (t : Trade) (id id' : OrderId) : Prop :=
  (t.bidTrade.orderId = id ∧ t.askTrade.orderId = id') ∨
    (t.bidTrade.orderId = id' ∧ t.askTrade.orderId = id)

/-- A recorded trade is between the two orders. -/
theorem Trade.Records.joins {t : Trade} {o x : OrderTerms} {n : ℕ}
    (h : t.Records (fillOf o (x, n))) : t.Joins o.orderId x.orderId := by
  obtain ⟨q, rfl, -⟩ := h
  unfold fillOf Trade.Joins
  cases hside : o.side with
  | Buy => exact Or.inl ⟨rfl, rfl⟩
  | Sell => exact Or.inr ⟨rfl, rfl⟩

/-- The trades of an order that is handed back are with the orders that it reaches. -/
theorem Handled.parties (h : Handled s o ts p s') (hw : WellIndexed s) :
    (∀ t ∈ ts, ∃ x, ReachedBy o.toOrderTerms o.remainingQuantity.toNat s.sides x ∧
      t.Joins o.orderId x.terms.orderId) ∧
    ∀ x, ReachedBy o.toOrderTerms o.remainingQuantity.toNat s.sides x →
      ∃ t ∈ ts, t.Joins o.orderId x.terms.orderId := by
  constructor
  · intro t ht
    obtain ⟨f, hf, hrec⟩ := exists_mem_of_forall₂ h.records.flip ht
    obtain ⟨x, n, hx, rfl, -⟩ := exists_reachedBy_of_mem_fills hw.inOrder hf
    exact ⟨x, hx, Trade.Records.joins hrec⟩
  · intro x hx
    obtain ⟨n, hn, -⟩ := hx.exists_mem_fills hw.inOrder
    obtain ⟨t, ht, hrec⟩ := exists_mem_of_forall₂ h.records hn
    exact ⟨t, ht, hrec.joins⟩

end calls

end FlowManager.Book
