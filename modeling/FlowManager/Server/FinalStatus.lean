import FlowManager.Book.Traceless
import FlowManager.Server.Decoder

/-!
# The reported status and the book

The status in the reply to an `ADD_ORDER` is made of the order object after the matching, and the
book is not looked at again. For an order with a quantity both tell the same (`agrees_of_quantity`).
An order of quantity 0 is filled before it has traded: where nothing crosses its price it rests and
is reported `FILLED`, and where something does it trades a quantity of 0.

`status_agrees_iff` is about whole runs of the server: the reports agree with the book all along if
and only if no order of quantity 0 gets into the book.
-/

namespace FlowManager.Server

open FlowManager.Lib FlowManager.Book

/-! ## One order -/

/-- The reply tells of an order what is in the book. -/
structure Agrees (reply : Reply) (id : OrderId) (s : Store) : Prop where
  working : reply.orderFinalStatusInBook = some .WORKING ↔
    ∃ o, s.resting? id = some o ∧ 0 < o.remainingQuantity.toNat
  gone : reply.orderFinalStatusInBook = some .FILLED ∨
    reply.orderFinalStatusInBook = some .REJECTED_BY_BOOK → s.resting? id = none
  allOpen : AllOpen s
  trades : ∀ fs, reply.trades = some fs → ∀ f ∈ fs, 0 < f.tradedQuantity

/-- Every trade that is reported has a quantity if every leg has. -/
theorem fillInfos_pos_iff {ts : Trades} :
    (∀ f ∈ fillInfos ts, 0 < f.tradedQuantity) ↔
      ∀ t ∈ ts, ∀ l ∈ t.legs, 0 < l.tradedQuantity.toNat := by
  simp only [fillInfos, fillInfo, Trade.legs, List.mem_flatMap, List.mem_cons, List.not_mem_nil,
    or_false]
  constructor
  · rintro h t ht l (rfl | rfl)
    · exact Int.natCast_pos.mp (h _ ⟨t, ht, Or.inl rfl⟩)
    · exact Int.natCast_pos.mp (h _ ⟨t, ht, Or.inr rfl⟩)
  · rintro h f ⟨t, ht, rfl | rfl⟩
    · exact Int.natCast_pos.mpr (h t ht t.bidTrade (Or.inl rfl))
    · exact Int.natCast_pos.mpr (h t ht t.askTrade (Or.inr rfl))

section order

variable {s s' : Store} {o : Order} {ts : Trades} {p : OrderPointer} {reply : Reply}

/-- What is reported of an order that has been handed back. -/
structure Reports (reply : Reply) (ts : Trades) (submitted : Order) : Prop where
  trades : reply.trades = some (fillInfos ts)
  status : reply.orderFinalStatusInBook = some (finalStatusInBook (some submitted))

/-- What a reply reports: the order is filled, or of the rest `FillAndKill` is rejected and
`GoodTillCancel` works. -/
theorem Reports.status_cases (h : Reports reply ts o) :
    (o.remainingQuantity.toNat = 0 ∧ reply.orderFinalStatusInBook = some .FILLED) ∨
    (o.remainingQuantity.toNat ≠ 0 ∧ o.orderType = .FillAndKill ∧
      reply.orderFinalStatusInBook = some .REJECTED_BY_BOOK) ∨
    (o.remainingQuantity.toNat ≠ 0 ∧ o.orderType = .GoodTillCancel ∧
      reply.orderFinalStatusInBook = some .WORKING) := by
  rw [h.status]
  unfold finalStatusInBook
  by_cases hfilled : o.isFilled = true
  · exact Or.inl ⟨(Order.isFilled_iff o).mp hfilled, by simp [hfilled]⟩
  · have hopen := mt (Order.isFilled_iff o).mpr hfilled
    cases htype : o.orderType with
    | FillAndKill => exact Or.inr (Or.inl ⟨hopen, rfl, by simp [hfilled, htype]⟩)
    | GoodTillCancel => exact Or.inr (Or.inr ⟨hopen, rfl, by simp [hfilled, htype]⟩)

/-- The report agrees with a book in which every order has something open. -/
theorem agrees_of_taken (h : Taken s o ts p s') (hreports : Reports reply ts (s'.heap p))
    (hopen : AllOpen s') (hpos : ∀ t ∈ ts, ∀ l ∈ t.legs, 0 < l.tradedQuantity.toNat) :
    Agrees reply o.orderId s' := by
  have htype : (s'.heap p).orderType = o.orderType := congrArg OrderTerms.orderType h.terms
  have hresting : ∀ x, s'.resting? o.orderId = some x →
      x = s'.heap p ∧ o.orderType = .GoodTillCancel ∧ (s'.heap p).remainingQuantity.toNat ≠ 0 := by
    intro x hx
    obtain ⟨rfl, hgtc⟩ := h.rests x hx
    exact ⟨rfl, hgtc, hopen.resting? h.invariant.toWellIndexed hx⟩
  refine ⟨?_, ?_, hopen, ?_⟩
  · constructor
    · intro hworking
      rcases hreports.status_cases with ⟨-, hstatus⟩ | ⟨-, -, hstatus⟩ | ⟨hne, hgtc, -⟩
      · simp [hstatus] at hworking
      · simp [hstatus] at hworking
      · exact ⟨_, h.stays (htype ▸ hgtc) hne, Nat.pos_of_ne_zero hne⟩
    · rintro ⟨x, hx, -⟩
      obtain ⟨-, hgtc, hne⟩ := hresting x hx
      rcases hreports.status_cases with ⟨hzero, -⟩ | ⟨-, hfak, -⟩ | ⟨-, -, hstatus⟩
      · exact absurd hzero hne
      · rw [htype, hgtc] at hfak
        cases hfak
      · exact hstatus
  · intro hgone
    by_contra hrests
    obtain ⟨x, hx⟩ := Option.ne_none_iff_exists'.mp hrests
    obtain ⟨-, hgtc, hne⟩ := hresting x hx
    rcases hreports.status_cases with ⟨hzero, -⟩ | ⟨-, hfak, -⟩ | ⟨-, -, hstatus⟩
    · exact absurd hzero hne
    · rw [htype, hgtc] at hfak
      cases hfak
    · simp [hstatus] at hgone
  · intro fs hfs
    rw [hreports.trades] at hfs
    obtain rfl := Option.some.inj hfs
    exact fillInfos_pos_iff.mpr hpos

end order

/-! ## Runs -/

/-- A request, with the server before and after. -/
structure Step where
  before : MainState
  payload : ByteArray
  after : MainState

/-- The requests of a run of the server. -/
inductive Trace (L : JsonLibrary) : List Step → MainState → Prop
  | nil : Trace L [] MainState.init
  | snoc {xs : List Step} {m m' : MainState} (payload : ByteArray) : Trace L xs m →
      (iteration L payload).run m = .returned () m' → Trace L (xs ++ [⟨m, payload, m'⟩]) m'

/-- The request is an `ADD_ORDER` of the order, and its id is new. -/
def Adds (L : JsonLibrary) (m : MainState) (payload : ByteArray) (o : Order) : Prop :=
  payload.size ≠ 0 ∧ ∃ req, L.parse payload = .ok req ∧
    req.field? "command" = some (.string "ADD_ORDER") ∧
    requiredFields.all req.contains = true ∧ decoded L.toLibraries req = .ok o ∧
    o.orderId ∉ m.server.store.book.ordersMap

/-- The reply to a request tells of an order what is in the book then. -/
def Step.Agrees (x : Step) (o : Order) : Prop :=
  ∃ reply, x.after.sent = x.before.sent ++ [reply] ∧
    FlowManager.Server.Agrees reply o.orderId x.after.server.store

section runs

variable {L : JsonLibrary} {m m' : MainState} {payload : ByteArray} {xs : List Step} {o : Order}

/-- A trace goes through states that requests reach. -/
theorem Trace.reached (h : Trace L xs m) : Reached L m := by
  induction h with
  | nil => exact .init
  | snoc payload _ hrun ih => exact ih.next payload hrun

/-- A new order is decoded unfilled. -/
theorem unfilled_of_decoded {req : Json} (h : decoded L.toLibraries req = .ok o) :
    o.remainingQuantity = o.initialQuantity := by
  obtain ⟨_, _, _, _, _, -, -, -, -, -, rfl⟩ := decoded_eq_ok L.toLibraries h
  rfl

/-- What an `ADD_ORDER` with a new id has done. -/
theorem Adds.booked (h : Adds L m payload o) (hi : Invariant m.server.store)
    (hrun : (iteration L payload).run m = .returned () m') :
    ∃ reply ts p, m'.sent = m.sent ++ [reply] ∧
      CallStep m.server.store (.addOrder o) (.added ts (some p)) m'.server.store ∧
      Reports reply ts (m'.server.store.heap p) ∧ o.remainingQuantity = o.initialQuantity := by
  obtain ⟨hsize, req, hparse, hcommand, hrequired, hdecoded, hid⟩ := h
  obtain ⟨reply, hsent, hserved⟩ := served_of_run_iteration hi hsize hparse hcommand hrun
  obtain ⟨server', sent'⟩ := m'
  dsimp only at hserved hsent ⊢
  cases hserved with
  | missingField _ _ hmissing =>
      rw [hrequired] at hmissing
      cases hmissing
  | badField _ _ _ htext =>
      rw [hdecoded] at htext
      cases htext
  | duplicate o' _ _ _ hdecoded' hlive =>
      rw [hdecoded] at hdecoded'
      cases hdecoded'
      exact absurd hlive hid
  | booked o' ts p store clientOrderId _ _ _ hdecoded' hcall _ htrades hstatus =>
      rw [hdecoded] at hdecoded'
      cases hdecoded'
      exact ⟨reply, ts, p, hsent, hcall, ⟨htrades, hstatus⟩, unfilled_of_decoded hdecoded⟩
  | cancelled _ _ _ hcommand => exact absurd hcommand (by simp)
  | failed _ hnot => exact absurd rfl hnot
  | informed _ hnot => exact absurd rfl hnot

/-- One request of a run that keeps everything in the book open. -/
theorem allOpen_iteration (hi : Invariant m.server.store) (hopen : AllOpen m.server.store)
    (hrun : (iteration L payload).run m = .returned () m')
    (hmeaning : ∀ o, Adds L m payload o → Meaningful m.server.store o) :
    AllOpen m'.server.store := by
  obtain ⟨reply, -, ⟨hsame, -⟩ | ⟨req, command, hsize, hparse, hvalue, hserved⟩⟩ :=
    of_run_iteration hi hrun
  · rwa [hsame]
  obtain ⟨server', sent'⟩ := m'
  dsimp only at hserved ⊢
  cases hserved with
  | missingField | badField | failed | informed => exact hopen
  | duplicate o => exact hi.toWellIndexed.allOpen_alloc hopen o
  | booked o ts p store clientOrderId _ hadd hrequired hdecoded hcall =>
      subst hadd
      have hadds : Adds L m payload o :=
        ⟨hsize, req, hparse, field?_of_value L hvalue (by simp), hrequired, hdecoded,
          hcall.not_mem_of_added⟩
      exact (hcall.allOpen_of_meaningful hi hopen (unfilled_of_decoded hdecoded)
        (hmeaning o hadds)).1
  | cancelled id store _ _ _ hcall =>
      cases hcall with
      | cancelled n _ hn hremoved => exact hremoved.allOpen hi hopen

/-- The report of one request agrees with the book if and only if the order is meaningful. -/
theorem Adds.agrees_iff (h : Adds L m payload o) (hi : Invariant m.server.store)
    (hopen : AllOpen m.server.store) (hrun : (iteration L payload).run m = .returned () m') :
    Step.Agrees ⟨m, payload, m'⟩ o ↔ Meaningful m.server.store o := by
  obtain ⟨reply, ts, p, hsent, hcall, hreports, hquantity⟩ := h.booked hi hrun
  constructor
  · rintro ⟨reply', hsent', hagrees⟩
    dsimp only at hsent'
    rw [hsent, List.append_cancel_left_eq, List.cons.injEq] at hsent'
    obtain ⟨rfl, -⟩ := hsent'
    exact hcall.meaningful_of_allOpen hi hopen hquantity hagrees.allOpen
      (fillInfos_pos_iff.mp (hagrees.trades _ hreports.trades))
  · intro hmeaning
    obtain ⟨hopen', hpos⟩ := hcall.allOpen_of_meaningful hi hopen hquantity hmeaning
    exact ⟨reply, hsent, agrees_of_taken (hcall.taken hi hopen).2 hreports hopen' hpos⟩

/-- A run of meaningful orders keeps everything in the book open. -/
theorem Trace.allOpen (h : Trace L xs m)
    (hmeaning : ∀ x ∈ xs, ∀ o, Adds L x.before x.payload o →
      Meaningful x.before.server.store o) : AllOpen m.server.store := by
  induction h with
  | nil => exact fun n (hn : n ∈ ([] : List Node)) => absurd hn List.not_mem_nil
  | snoc payload hxs hrun ih =>
      have hopen := ih fun x hx => hmeaning x (List.mem_append_left _ hx)
      exact allOpen_iteration hxs.reached.invariant hopen hrun
        (hmeaning _ (List.mem_append_right _ List.mem_cons_self))

/-- **The reports agree with the book** all along a run if and only if every order that gets into
the book is meaningful. -/
theorem status_agrees_iff (L : JsonLibrary) (xs : List Step) (m : MainState) (h : Trace L xs m) :
    (∀ x ∈ xs, ∀ o, Adds L x.before x.payload o → x.Agrees o) ↔
      ∀ x ∈ xs, ∀ o, Adds L x.before x.payload o → Meaningful x.before.server.store o := by
  induction h with
  | nil => simp
  | snoc payload hxs hrun ih =>
      simp only [List.forall_mem_append, List.forall_mem_singleton]
      rw [ih]
      refine and_congr_right fun hmeaning => forall_congr' fun o => forall_congr' fun hadds => ?_
      exact hadds.agrees_iff hxs.reached.invariant (hxs.allOpen hmeaning) hrun

/-- The order that the server makes of `addOrderOf`. -/
def orderOf (quantity : Quantity) : Order := Order.new .GoodTillCancel 1 .Buy 100 quantity

/-- The request for an order of 5, to an empty book. -/
theorem status_agrees_iff_five :
    let L : JsonLibrary := .nlohmann fun _ => .ok (addOrderOf 5)
    ∃ m', Trace L [⟨MainState.init, addOrderText "5", m'⟩] m' ∧
      ((∀ x ∈ [(⟨MainState.init, addOrderText "5", m'⟩ : Step)], ∀ o,
          Adds L x.before x.payload o → x.Agrees o) ↔
        ∀ x ∈ [(⟨MainState.init, addOrderText "5", m'⟩ : Step)], ∀ o,
          Adds L x.before x.payload o → Meaningful x.before.server.store o) := by
  intro L
  obtain ⟨m', hrun⟩ : ∃ m', (iteration L (addOrderText "5")).run MainState.init =
      .returned () m' := by
    rw [run_iteration_of_parse (addOrderText_size _) rfl]
    exact ⟨_, rfl⟩
  exact ⟨m', Trace.nil.snoc _ hrun, status_agrees_iff L _ _ (Trace.nil.snoc _ hrun)⟩

/-- The report does not always agree with the book: an order of quantity 0 rests and is reported
filled. -/
theorem status_agrees_fails :
    ¬ ∀ (L : JsonLibrary) (xs : List Step) (m : MainState), Trace L xs m →
      ∀ x ∈ xs, ∀ o, Adds L x.before x.payload o → x.Agrees o := by
  intro h
  have hadds : Adds (.nlohmann fun _ => .ok (addOrderOf 0)) MainState.init (addOrderText "0")
      (orderOf 0) := by
    refine ⟨addOrderText_size _, _, rfl, rfl, by decide, rfl, ?_⟩
    exact Finmap.notMem_empty
  obtain ⟨m', hrun, n, hn, hzero⟩ : ∃ m', (iteration (.nlohmann fun _ => .ok (addOrderOf 0))
      (addOrderText "0")).run MainState.init = .returned () m' ∧
      ∃ n ∈ m'.server.store.nodes, (m'.server.store.orderAt n).remainingQuantity.toNat = 0 := by
    rw [run_iteration_of_parse (addOrderText_size _) rfl]
    exact ⟨_, rfl, ⟨0, 0⟩, List.mem_cons_self, rfl⟩
  obtain ⟨reply, -, hagrees⟩ := h _ _ _ (Trace.nil.snoc _ hrun) _ List.mem_cons_self _ hadds
  exact hagrees.allOpen n hn hzero

end runs

end FlowManager.Server
