import FlowManager.Broker.SimulatedBroker
import FlowManager.Lib.InPlace
import Mathlib.Algebra.Order.Ring.Int

/-!
# What the order threads report

Every step of a thread keeps `SimulatedBroker.Sound`: an order fills no more than its amount, a
thread passes on one confirmation, of all that its order has filled, and a confirmation with
`FILLED` is of the whole amount. What has been passed on so far is then what the finished threads
have filled.

A thread that is past its loop because nothing is left to fill has filled the amount; one that is
past it because of a cancel finds the flag still set when it chooses the final status, since
nothing resets it.
-/

namespace FlowManager.Broker.Simulated

open FlowManager.Lib FlowManager.Broker

/-! ## One order -/

namespace SimulatedOrder

variable {o o' : SimulatedOrder} {draw : ℕ}

/-- What the order adds to the position of its symbol. -/
def signedFilled (o : SimulatedOrder) : ℤ := o.amountFilled * bsInt o.buySell

/-- The thread has passed its confirmation on. -/
def isFinished (o : SimulatedOrder) : Bool := o.thread = .finished

/-- The final status fits what has been filled. -/
def Ends (o : SimulatedOrder) (finalStatus : Status) : Prop :=
  finalStatus = .FILLED → o.amountFilled = o.amount

/-- What the thread knows of its order at a place. -/
def Knows (o : SimulatedOrder) : Place → Prop
  | .testing => True
  | .filling => o.amountFilled < o.amount
  | .finishing => o.cancelling = true ∨ o.amountFilled = o.amount
  | .writing finalStatus => o.Ends finalStatus
  | .removing conf => ∃ finalStatus, conf = o.confirmation finalStatus ∧ o.Ends finalStatus
  | .queueing conf => ∃ finalStatus, conf = o.confirmation finalStatus ∧ o.Ends finalStatus
  | .finished => True

/-- The invariant of an order. -/
structure Sound (o : SimulatedOrder) : Prop where
  nonneg : 0 ≤ o.amountFilled
  le : o.amountFilled ≤ o.amount
  knows : o.Knows o.thread

/-- A new order is sound. -/
theorem sound_init {i : ℕ} {clientOrderId symbol : String} {amount : ℤ} {buySell : Bool}
    (h : 0 < amount) : (init i clientOrderId symbol amount buySell).Sound :=
  ⟨le_rfl, h.le, trivial⟩

/-- A draw is positive. -/
theorem randint_pos {hi : ℤ} (h : 0 < hi) : 0 < randint hi draw := by
  have hmod := Int.emod_nonneg (draw : ℤ) h.ne'
  unfold randint
  omega

/-- A step fills something of an order that is not full. -/
theorem filledThisStep_pos (draw : ℕ) (h : o.amountFilled < o.amount) :
    0 < o.filledThisStep draw := by
  refine lt_min (randint_pos ?_) (by omega)
  exact lt_of_lt_of_le Int.one_pos (le_max_left _ _)

/-- A step fills no more than is left. -/
theorem filledThisStep_le : o.amountFilled + o.filledThisStep draw ≤ o.amount := by
  have hmin : o.filledThisStep draw ≤ o.amount - o.amountFilled := min_le_right _ _
  omega

/-- **A step of its thread keeps the invariant of an order.** -/
theorem Sound.move (h : o.Sound) : (o.move draw).Sound := by
  obtain ⟨hnonneg, hle, hknows⟩ := h
  unfold SimulatedOrder.move
  cases hthread : o.thread with
  | testing =>
      dsimp only
      split_ifs with htest
      · exact ⟨hnonneg, hle, htest.2⟩
      · refine ⟨hnonneg, hle, ?_⟩
        simp only [Bool.not_eq_true', not_and_or, Bool.not_eq_false] at htest
        exact htest.imp_right fun hdone => le_antisymm hle (not_lt.mp hdone)
  | filling =>
      rw [hthread] at hknows
      have hpos := filledThisStep_pos draw hknows
      exact ⟨by dsimp only; omega, filledThisStep_le, trivial⟩
  | finishing =>
      rw [hthread] at hknows
      refine ⟨hnonneg, hle, ?_⟩
      intro hfilled
      rcases hknows with hcancel | hdone
      · simp [hcancel] at hfilled
      · exact hdone
  | writing finalStatus =>
      rw [hthread] at hknows
      exact ⟨hnonneg, hle, finalStatus, rfl, hknows⟩
  | removing conf =>
      rw [hthread] at hknows
      exact ⟨hnonneg, hle, hknows⟩
  | queueing conf => exact ⟨hnonneg, hle, trivial⟩
  | finished => exact ⟨hnonneg, hle, hknows⟩

/-- A cancel can land at any place. -/
theorem Sound.cancelOrder (h : o.Sound) : o.cancelOrder.Sound := by
  refine ⟨h.nonneg, h.le, ?_⟩
  have hknows := h.knows
  unfold SimulatedOrder.cancelOrder
  dsimp only
  cases hthread : o.thread with
  | finishing => exact Or.inl rfl
  | testing | finished => trivial
  | filling | writing | removing | queueing =>
      rw [hthread] at hknows
      exact hknows

/-- What a write to an order object leaves, where the thread does not pass on its confirmation. -/
structure Keeps (o o' : SimulatedOrder) : Prop where
  brokerOrderId : o'.brokerOrderId = o.brokerOrderId
  clientOrderId : o'.clientOrderId = o.clientOrderId
  symbol : o'.symbol = o.symbol
  isFinished : o'.isFinished = o.isFinished
  ended : o.isFinished = true → o'.amount = o.amount ∧
    ∀ finalStatus, o'.confirmation finalStatus = o.confirmation finalStatus
  sound : o.Sound → o'.Sound

/-- An order that is left keeps what it has. -/
theorem Keeps.refl (o : SimulatedOrder) : Keeps o o :=
  ⟨rfl, rfl, rfl, rfl, fun _ => ⟨rfl, fun _ => rfl⟩, id⟩

/-- A cancel keeps what the order has. -/
theorem keeps_cancelOrder (o : SimulatedOrder) : Keeps o o.cancelOrder :=
  ⟨rfl, rfl, rfl, rfl, fun _ => ⟨rfl, fun _ => rfl⟩, Sound.cancelOrder⟩

/-- A step of the thread leaves the broker's id. -/
@[simp] theorem move_brokerOrderId : (o.move draw).brokerOrderId = o.brokerOrderId := by
  unfold move
  split <;> rfl

/-- A step of the thread leaves the client's id. -/
@[simp] theorem move_clientOrderId : (o.move draw).clientOrderId = o.clientOrderId := by
  unfold move
  split <;> rfl

/-- A step of the thread leaves the symbol. -/
@[simp] theorem move_symbol : (o.move draw).symbol = o.symbol := by
  unfold move
  split <;> rfl

/-- A step that does not pass on the confirmation keeps what the order has. -/
theorem keeps_move (h : ∀ conf, o.thread ≠ .queueing conf) : Keeps o (o.move draw) := by
  refine ⟨move_brokerOrderId, move_clientOrderId, move_symbol, ?_, ?_, Sound.move⟩
  · unfold move isFinished
    cases hthread : o.thread with
    | testing =>
        dsimp only
        split_ifs <;> rfl
    | queueing conf => exact absurd hthread (h conf)
    | finished => simp [hthread]
    | filling | finishing | writing | removing => simp
  · intro hfinished
    have hsame : o.move draw = o := by
      unfold move
      rw [of_decide_eq_true hfinished]
    rw [hsame]
    exact ⟨rfl, fun _ => rfl⟩

end SimulatedOrder

/-! ## The broker -/

namespace SimulatedBroker

variable {b b' : SimulatedBroker}

/-- The signed filled quantities of the orders of a symbol that `counts` selects. -/
def filledBy (b : SimulatedBroker) (s : String) (counts : SimulatedOrder → Bool) : ℤ :=
  (b.orders.map fun o => if o.symbol = s ∧ counts o then o.signedFilled else 0).sum

/-- What has been passed on with a broker id. -/
def reportsOf (b : SimulatedBroker) (i : ℕ) : List TradeConfirmationMessage :=
  b.confirmations.filter fun conf => conf.orderId = i

/-- The invariant of the broker. -/
structure Sound (b : SimulatedBroker) : Prop where
  brokerOrderId : ∀ {i : ℕ} {o : SimulatedOrder}, b.orders[i]? = some o → o.brokerOrderId = i
  order : ∀ {i : ℕ} {o : SimulatedOrder}, b.orders[i]? = some o → o.Sound
  pending : ∀ {i : ℕ} {o : SimulatedOrder}, b.orders[i]? = some o →
    o.isFinished = false → b.reportsOf i = []
  reported : ∀ {i : ℕ} {o : SimulatedOrder}, b.orders[i]? = some o →
    o.isFinished = true → ∃ finalStatus, b.reportsOf i = [o.confirmation finalStatus] ∧ o.Ends finalStatus
  known : ∀ conf ∈ b.confirmations,
    (∃ id s buying, conf = rejectMsg id s buying) ∨ ∃ i < b.orders.length, conf.orderId = i
  timers : ∀ conf ∈ b.timers, ∃ id s buying, conf = rejectMsg id s buying
  fills : ∀ s, filledOf s b.confirmations = b.filledBy s SimulatedOrder.isFinished

/-- A new broker is sound. -/
theorem sound_init : SimulatedBroker.init.Sound := by
  constructor <;> simp [SimulatedBroker.init, filledBy]

/-- Finished and unfinished orders make up all of them. -/
theorem filledBy_add_not (b : SimulatedBroker) (s : String) (counts : SimulatedOrder → Bool) :
    b.filledBy s counts + b.filledBy s (fun o => !counts o) = b.filledBy s fun _ => true := by
  unfold filledBy
  rw [← List.sum_map_add]
  congr 1
  refine List.map_congr_left fun o _ => ?_
  by_cases hs : o.symbol = s <;> cases hcounts : counts o <;> simp [hs, hcounts]

/-- Where every order counts, all fills count. -/
theorem filledBy_of_forall {counts : SimulatedOrder → Bool}
    (h : ∀ o ∈ b.orders, counts o = true) (s : String) :
    b.filledBy s counts = b.filledBy s fun _ => true := by
  unfold filledBy
  congr 1
  refine List.map_congr_left fun o ho => ?_
  rw [h o ho]

/-- There are no reports of an order that is not there. -/
theorem reportsOf_eq_nil_of_le (h : b.Sound) {i : ℕ} (hi : b.orders.length ≤ i) :
    b.reportsOf i = [] := by
  unfold reportsOf
  rw [List.filter_eq_nil_iff]
  intro conf hconf
  rw [decide_eq_true_iff]
  rcases h.known conf hconf with ⟨id, s, buying, rfl⟩ | ⟨j, hj, horder⟩
  · simp only [rejectMsg]
    omega
  · rw [horder]
    omega

/-- What is passed on with `FILLED` is the whole amount of an order. -/
theorem Sound.exists_order (h : b.Sound) {conf : TradeConfirmationMessage}
    (hconf : conf ∈ b.confirmations) (hfilled : conf.status = .FILLED) :
    ∃ (i : ℕ) (o : SimulatedOrder), b.orders[i]? = some o ∧ conf.orderId = i ∧
      conf.filledQuantity = o.amount := by
  rcases h.known conf hconf with ⟨id, s, buying, rfl⟩ | ⟨i, hi, hid⟩
  · simp [rejectMsg] at hfilled
  · have ho : b.orders[i]? = some b.orders[i] := List.getElem?_eq_getElem hi
    have hmem : conf ∈ b.reportsOf i := List.mem_filter.mpr ⟨hconf, decide_eq_true hid⟩
    refine ⟨i, _, ho, hid, ?_⟩
    cases hfinished : b.orders[i].isFinished with
    | false =>
        rw [h.pending ho hfinished] at hmem
        simp at hmem
    | true =>
        obtain ⟨finalStatus, hreports, hends⟩ := h.reported ho hfinished
        rw [hreports, List.mem_singleton] at hmem
        rw [hmem] at hfilled ⊢
        exact hends hfilled

/-- Writes that keep every order. -/
structure Keeps (b b' : SimulatedBroker) : Prop where
  orders : List.Forall₂ SimulatedOrder.Keeps b.orders b'.orders
  confirmations : b'.confirmations = b.confirmations
  timers : b'.timers = b.timers

namespace Keeps

/-- What is kept has the same fills reported. -/
theorem filledBy (h : Keeps b b') (s : String) :
    b'.filledBy s SimulatedOrder.isFinished = b.filledBy s SimulatedOrder.isFinished := by
  unfold SimulatedBroker.filledBy
  rw [map_eq_of_forall₂ h.orders]
  intro o o' hkeeps
  rw [hkeeps.symbol, hkeeps.isFinished]
  split_ifs with hcounts
  · have hconf := (hkeeps.ended hcounts.2).2 .FILLED
    have hamount : o'.amountFilled = o.amountFilled :=
      congrArg TradeConfirmationMessage.filledQuantity hconf
    have hside : o'.buySell = o.buySell := congrArg TradeConfirmationMessage.sideIsBuy hconf
    unfold SimulatedOrder.signedFilled
    rw [hamount, hside]
  · rfl

/-- What is kept has the same reports. -/
theorem reportsOf (h : Keeps b b') (i : ℕ) : b'.reportsOf i = b.reportsOf i := by
  unfold SimulatedBroker.reportsOf
  rw [h.confirmations]

/-- Orders that have all finished stay finished. -/
theorem isFinished (h : Keeps b b') (hb : ∀ o ∈ b.orders, o.isFinished = true) :
    ∀ o ∈ b'.orders, o.isFinished = true := by
  intro o' ho'
  obtain ⟨i, hi⟩ := List.mem_iff_getElem?.mp ho'
  obtain ⟨o, ho, hkeeps⟩ := exists_of_forall₂ h.orders hi
  rw [hkeeps.isFinished]
  exact hb o (List.mem_of_getElem? ho)

/-- What is kept is sound. -/
theorem sound (h : Keeps b b') (hb : b.Sound) : b'.Sound where
  brokerOrderId := by
    intro i o' ho'
    obtain ⟨o, ho, hkeeps⟩ := exists_of_forall₂ h.orders ho'
    rw [hkeeps.brokerOrderId]
    exact hb.brokerOrderId ho
  order := by
    intro i o' ho'
    obtain ⟨o, ho, hkeeps⟩ := exists_of_forall₂ h.orders ho'
    exact hkeeps.sound (hb.order ho)
  pending := by
    intro i o' ho' hpending
    obtain ⟨o, ho, hkeeps⟩ := exists_of_forall₂ h.orders ho'
    rw [h.reportsOf]
    exact hb.pending ho (hkeeps.isFinished ▸ hpending)
  reported := by
    intro i o' ho' hfinished
    obtain ⟨o, ho, hkeeps⟩ := exists_of_forall₂ h.orders ho'
    rw [hkeeps.isFinished] at hfinished
    obtain ⟨finalStatus, hreports, hends⟩ := hb.reported ho hfinished
    obtain ⟨hamount, hconf⟩ := hkeeps.ended hfinished
    refine ⟨finalStatus, by rw [h.reportsOf, hconf, hreports], ?_⟩
    have hfilled : o'.amountFilled = o.amountFilled :=
      congrArg TradeConfirmationMessage.filledQuantity (hconf finalStatus)
    unfold SimulatedOrder.Ends
    rw [hamount, hfilled]
    exact hends
  known := by
    rw [h.confirmations, ← h.orders.length_eq]
    exact hb.known
  timers := by
    rw [h.timers]
    exact hb.timers
  fills := by
    intro s
    rw [h.confirmations, h.filledBy]
    exact hb.fills s

end Keeps

/-- What has been passed on once one more confirmation has. -/
theorem reportsOf_append {conf : TradeConfirmationMessage} {i : ℕ} (hid : conf.orderId = i) (j : ℕ) :
    (b.confirmations ++ [conf]).filter (fun conf => conf.orderId = (j : ℤ)) =
      b.reportsOf j ++ if i = j then [conf] else [] := by
  unfold reportsOf
  rw [List.filter_append]
  congr 1
  by_cases hj : i = j <;> simp [hid, hj]

/-- What the finished orders have filled once one more has finished. -/
theorem filledBy_modify_finished {i draw : ℕ} {o : SimulatedOrder} (ho : b.orders[i]? = some o)
    (hbefore : o.isFinished = false) (hmove : o.move draw = { o with thread := .finished })
    (s : String) : (b.write i (·.move draw)).filledBy s SimulatedOrder.isFinished =
      b.filledBy s SimulatedOrder.isFinished + if o.symbol = s then o.signedFilled else 0 := by
  have hsum := sum_map_modify
    (fun o : SimulatedOrder => if o.symbol = s ∧ o.isFinished then o.signedFilled else 0)
    (·.move draw) b.orders i ho
  unfold filledBy
  refine hsum.trans ?_
  rw [hmove, hbefore]
  simp [SimulatedOrder.isFinished, SimulatedOrder.signedFilled]

/-- An order that passes its confirmation on. -/
theorem Sound.queueing (h : b.Sound) {i draw : ℕ} {o : SimulatedOrder}
    {conf : TradeConfirmationMessage} (ho : b.orders[i]? = some o)
    (hthread : o.thread = .queueing conf) :
    ({ b.write i (·.move draw) with confirmations := b.confirmations ++ [conf] }).Sound := by
  obtain ⟨finalStatus, hconf, hends⟩ : o.Knows (.queueing conf) := hthread ▸ (h.order ho).knows
  have hmove : o.move draw = { o with thread := .finished } := by
    unfold SimulatedOrder.move
    rw [hthread]
  have hfinished : o.isFinished = false := by
    simp [SimulatedOrder.isFinished, hthread]
  have hid : conf.orderId = i := by
    rw [hconf, SimulatedOrder.confirmation, h.brokerOrderId ho]
  have hcases : ∀ {j o'}, (b.orders.modify i (·.move draw))[j]? = some o' →
      (j = i ∧ o' = { o with thread := .finished }) ∨ (j ≠ i ∧ b.orders[j]? = some o') := by
    intro j o' ho'
    rcases getElem?_modify_cases ho' with ⟨hj, o'', ho'', rfl⟩ | hother
    · obtain rfl := Option.some.inj (ho.symm.trans ho'')
      exact Or.inl ⟨hj, hmove⟩
    · exact Or.inr hother
  constructor
  case brokerOrderId =>
    intro j o' ho'
    rcases hcases ho' with ⟨rfl, rfl⟩ | ⟨-, ho'⟩
    · have hbefore : o.brokerOrderId = j := h.brokerOrderId ho
      exact hbefore
    · exact h.brokerOrderId ho'
  case order =>
    intro j o' ho'
    rcases hcases ho' with ⟨rfl, rfl⟩ | ⟨-, ho'⟩
    · exact ⟨(h.order ho).nonneg, (h.order ho).le, trivial⟩
    · exact h.order ho'
  case pending =>
    intro j o' ho' hpending
    rcases hcases ho' with ⟨rfl, rfl⟩ | ⟨hj, ho'⟩
    · simp [SimulatedOrder.isFinished] at hpending
    · refine (reportsOf_append hid j).trans ?_
      rw [if_neg (Ne.symm hj), List.append_nil]
      exact h.pending ho' hpending
  case reported =>
    intro j o' ho' hdone
    rcases hcases ho' with ⟨rfl, rfl⟩ | ⟨hj, ho'⟩
    · refine ⟨finalStatus, (reportsOf_append hid j).trans ?_, hends⟩
      rw [h.pending ho hfinished, if_pos rfl, hconf]
      rfl
    · obtain ⟨finalStatus', hbefore, hends'⟩ := h.reported ho' hdone
      refine ⟨finalStatus', (reportsOf_append hid j).trans ?_, hends'⟩
      rw [if_neg (Ne.symm hj), List.append_nil, hbefore]
  case known =>
    intro conf' hconf'
    have hlength : (b.orders.modify i (·.move draw)).length = b.orders.length :=
      List.length_modify _ _ _
    rcases List.mem_append.mp hconf' with hconf' | hconf'
    · refine (h.known conf' hconf').imp_right ?_
      rintro ⟨j, hj, horder⟩
      exact ⟨j, hlength ▸ hj, horder⟩
    · obtain rfl := List.mem_singleton.mp hconf'
      have hlt : i < b.orders.length := (List.getElem?_eq_some_iff.mp ho).1
      exact Or.inr ⟨i, hlength ▸ hlt, hid⟩
  case timers => exact h.timers
  case fills =>
    intro s
    have hnow : filledOf s [conf] = if o.symbol = s then o.signedFilled else 0 := by
      rw [hconf, filledOf_cons, filledOf_nil, add_zero]
      rfl
    refine Eq.trans ?_ (filledBy_modify_finished ho hfinished hmove s).symm
    rw [filledOf_append, hnow, h.fills s]

/-- A new order. -/
theorem Sound.accept (h : b.Sound) {clientOrderId symbol : String} {quantity : ℤ}
    {sideIsBuy : Bool} (hquantity : 0 < quantity) :
    (b.accept clientOrderId symbol quantity sideIsBuy).Sound := by
  have hcases : ∀ {j o'}, (b.accept clientOrderId symbol quantity sideIsBuy).orders[j]? = some o' →
      b.orders[j]? = some o' ∨ (j = b.orders.length ∧
        o' = .init b.orders.length clientOrderId symbol quantity sideIsBuy) := by
    intro j o' ho'
    rcases lt_trichotomy j b.orders.length with hj | hj | hj
    · left
      rwa [SimulatedBroker.accept, List.getElem?_append_left hj] at ho'
    · right
      simp [SimulatedBroker.accept, hj] at ho'
      exact ⟨hj, ho'.symm⟩
    · have hnone := (List.getElem?_eq_some_iff.mp ho').1
      simp [SimulatedBroker.accept] at hnone
      omega
  constructor
  case brokerOrderId =>
    intro j o' ho'
    rcases hcases ho' with ho' | ⟨rfl, rfl⟩
    · exact h.brokerOrderId ho'
    · rfl
  case order =>
    intro j o' ho'
    rcases hcases ho' with ho' | ⟨rfl, rfl⟩
    · exact h.order ho'
    · exact SimulatedOrder.sound_init hquantity
  case pending =>
    intro j o' ho' hpending
    rcases hcases ho' with ho' | ⟨rfl, rfl⟩
    · exact h.pending ho' hpending
    · exact reportsOf_eq_nil_of_le h le_rfl
  case reported =>
    intro j o' ho' hdone
    rcases hcases ho' with ho' | ⟨rfl, rfl⟩
    · exact h.reported ho' hdone
    · simp [SimulatedOrder.isFinished, SimulatedOrder.init] at hdone
  case known =>
    intro conf hconf
    refine (h.known conf hconf).imp_right ?_
    rintro ⟨j, hj, horder⟩
    refine ⟨j, ?_, horder⟩
    simp only [SimulatedBroker.accept, List.length_append]
    omega
  case timers => exact h.timers
  case fills =>
    intro s
    have hfills := h.fills s
    unfold filledBy at hfills
    simp only [SimulatedBroker.accept, filledBy, List.map_append, List.sum_append, ← hfills]
    simp [SimulatedOrder.isFinished, SimulatedOrder.init]

/-- The rejection of a duplicate id. -/
theorem Sound.addTimer (h : b.Sound) (clientOrderId symbol : String) (sideIsBuy : Bool) :
    ({ b with timers := b.timers ++ [rejectMsg clientOrderId symbol sideIsBuy] }).Sound := by
  refine ⟨h.brokerOrderId, h.order, h.pending, h.reported, h.known, ?_, h.fills⟩
  intro conf hconf
  rcases List.mem_append.mp hconf with hconf | hconf
  · exact h.timers conf hconf
  · exact ⟨_, _, _, List.mem_singleton.mp hconf⟩

/-- A rejection that is passed on fills nothing and names no order. -/
theorem Sound.fireTimer (h : b.Sound) {k : ℕ} {message : TradeConfirmationMessage}
    (hk : b.timers[k]? = some message) :
    ({ b with timers := b.timers.eraseIdx k,
              confirmations := b.confirmations ++ [message] }).Sound := by
  obtain ⟨id, s, buying, rfl⟩ := h.timers message (List.mem_of_getElem? hk)
  have hreports : ∀ i : ℕ, (b.confirmations ++ [rejectMsg id s buying]).filter
      (fun conf => conf.orderId = (i : ℤ)) = b.reportsOf i := by
    intro i
    have hnot : ¬(rejectMsg id s buying).orderId = (i : ℤ) := by
      simp only [rejectMsg]
      omega
    simp [SimulatedBroker.reportsOf, hnot]
  refine ⟨h.brokerOrderId, h.order, ?_, ?_, ?_, ?_, ?_⟩
  · intro i o ho hpending
    exact (hreports i).trans (h.pending ho hpending)
  · intro i o ho hdone
    obtain ⟨finalStatus, hbefore, hends⟩ := h.reported ho hdone
    exact ⟨finalStatus, (hreports i).trans hbefore, hends⟩
  · intro conf hconf
    rcases List.mem_append.mp hconf with hconf | hconf
    · exact h.known conf hconf
    · exact Or.inl ⟨_, _, _, List.mem_singleton.mp hconf⟩
  · intro conf hconf
    exact h.timers conf (List.mem_of_mem_eraseIdx hconf)
  · intro s'
    have hfills := h.fills s'
    rw [filledOf_append, hfills]
    simp [rejectMsg, signedFill, filledBy]

end SimulatedBroker

/-! ## A step of a thread -/

/-- What a step puts into the queue is what it passes to the callback. -/
def Grows (t t' : Shared) : Prop :=
  ∃ new, t'.1 = t.1 ++ new ∧ t'.2.confirmations = t.2.confirmations ++ new

/-- Nothing put into the queue is a growth. -/
theorem Grows.refl (t : Shared) : Grows t t := ⟨[], by simp, by simp⟩

/-- Without a confirmation there is nothing to put into the queue. -/
theorem Grows.of_eq {t t' : Shared} (hq : t'.1 = t.1)
    (hconfs : t'.2.confirmations = t.2.confirmations) : Grows t t' :=
  ⟨[], by simp [hq], by simp [hconfs]⟩

/-- One growth after another is a growth. -/
theorem Grows.trans {t t' t'' : Shared} (h : Grows t t') (h' : Grows t' t'') : Grows t t'' := by
  obtain ⟨new, hq, hconfs⟩ := h
  obtain ⟨new', hq', hconfs'⟩ := h'
  exact ⟨new ++ new', by rw [hq', hq, List.append_assoc],
    by rw [hconfs', hconfs, List.append_assoc]⟩

/-- The callback puts its confirmation into the queue. -/
theorem grows_callback (conf : TradeConfirmationMessage) (t : Shared) :
    Grows t (callback conf t) := ⟨[conf], rfl, rfl⟩

section step

variable {t : Shared}

/-- A cancel keeps what every order has. -/
theorem keeps_cancelAt (b : SimulatedBroker) (i : ℕ) :
    b.Keeps (b.write i SimulatedOrder.cancelOrder) :=
  ⟨forall₂_modify SimulatedOrder.Keeps.refl _ _ _ fun o _ => SimulatedOrder.keeps_cancelOrder o,
    rfl, rfl⟩

/-- A step of a thread that does not pass on its confirmation keeps what every order has. -/
theorem keeps_writeMove {b : SimulatedBroker} {i : ℕ} {o : SimulatedOrder}
    (ho : b.orders[i]? = some o) (hthread : ∀ conf, o.thread ≠ .queueing conf) (draw : ℕ) :
    b.Keeps (b.write i (·.move draw)) := by
  refine ⟨forall₂_modify SimulatedOrder.Keeps.refl _ _ _ fun o' ho' => ?_, rfl, rfl⟩
  obtain rfl := Option.some.inj (ho.symm.trans ho')
  exact SimulatedOrder.keeps_move hthread

/-- `stop` keeps what every order has. -/
theorem keeps_stop (b : SimulatedBroker) : b.Keeps b.stop := by
  refine ⟨forall₂_map _ fun o _ => ?_, rfl, rfl⟩
  split_ifs
  · exact SimulatedOrder.keeps_cancelOrder o
  · exact SimulatedOrder.Keeps.refl o

/-- Quantities are positive. -/
def SimEvent.Positive : SimEvent → Prop
  | .submitOrder _ _ quantity _ => 0 < quantity
  | _ => True

/-- What a step keeps of the queue and the broker. -/
def Advances (t t' : Shared) : Prop := t'.2.Sound ∧ Grows t t'

/-- **`submit_order`** advances what the threads share. -/
theorem advances_submitOrder (h : t.2.Sound) {clientOrderId symbol : String} {quantity : ℤ}
    {sideIsBuy : Bool} {orderType : String} {price : Option PyFloat} (hquantity : 0 < quantity) :
    Proc.wp (submitOrder clientOrderId symbol quantity sideIsBuy orderType price)
      (fun _ => Advances t) (fun _ => Advances t) (Advances t) t := by
  unfold submitOrder
  rw [Proc.wp_bind, Proc.wp_get]
  cases t.2.liveOrders.lookup clientOrderId with
  | some i => exact ⟨h.addTimer clientOrderId symbol sideIsBuy, Grows.of_eq rfl rfl⟩
  | none => exact ⟨h.accept hquantity, Grows.of_eq rfl rfl⟩

/-- **`cancel_order`** advances what the threads share. -/
theorem advances_cancelOrder (h : t.2.Sound) (clientOrderId : String) :
    Proc.wp (cancelOrder clientOrderId)
      (fun _ => Advances t) (fun _ => Advances t) (Advances t) t := by
  unfold cancelOrder
  rw [Proc.wp_bind, Proc.wp_get]
  cases t.2.liveOrders.lookup clientOrderId with
  | some i => exact ⟨(keeps_cancelAt t.2 i).sound h, Grows.of_eq rfl rfl⟩
  | none => exact ⟨h, Grows.refl t⟩

/-- **A step of an order's thread** advances what the threads share. -/
theorem advances_threadStep (h : t.2.Sound) (i draw : ℕ) : Advances t (threadStep i draw t) := by
  unfold threadStep
  cases ho : t.2.orders[i]? with
  | none => exact ⟨h, Grows.refl t⟩
  | some o =>
      have hkeeps : (∀ conf, o.thread ≠ .queueing conf) → (t.2.write i (·.move draw)).Sound :=
        fun hthread => (keeps_writeMove ho hthread draw).sound h
      dsimp only
      cases hthread : o.thread with
      | queueing conf => exact ⟨h.queueing ho hthread, grows_callback conf _⟩
      | removing conf =>
          obtain ⟨hid, horder, hpending, hreported, hknown, htimers, hfills⟩ :=
            hkeeps (by simp [hthread])
          exact ⟨⟨hid, horder, hpending, hreported, hknown, htimers, hfills⟩,
            Grows.of_eq rfl rfl⟩
      | testing | filling | finishing | writing | finished =>
          exact ⟨hkeeps (by simp [hthread]), Grows.of_eq rfl rfl⟩

/-- **A timer that goes off** advances what the threads share. -/
theorem advances_timerStep (h : t.2.Sound) (k : ℕ) : Advances t (timerStep k t) := by
  unfold timerStep
  cases hk : t.2.timers[k]? with
  | none => exact ⟨h, Grows.refl t⟩
  | some message => exact ⟨h.fireTimer hk, [message], rfl, rfl⟩

/-- **A step of any thread keeps the invariant.** -/
theorem SimEvent.advances (e : SimEvent) (he : e.Positive) (h : t.2.Sound) :
    Advances t (e.apply t) := by
  cases e with
  | thread i draw => exact advances_threadStep h i draw
  | timer k => exact advances_timerStep h k
  | submitOrder id symbol quantity sideIsBuy => exact (advances_submitOrder h he).state
  | cancelOrder id => exact (advances_cancelOrder h id).state
  | stop => exact ⟨(keeps_stop t.2).sound h, Grows.of_eq rfl rfl⟩

/-- One advance after another is an advance. -/
theorem Advances.trans {t' t'' : Shared} (h : Advances t t') (h' : Advances t' t'') :
    Advances t t'' := ⟨h'.1, h.2.trans h'.2⟩

end step

end FlowManager.Broker.Simulated
