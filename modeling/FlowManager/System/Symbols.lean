import FlowManager.System.Exchanges

/-!
# Symbol isolation

The server keeps one book for all symbols. `symbols_isolated_iff` says exactly when this makes no
difference: when every new order reaches only orders of its own symbol, and nothing of the other
symbols shows where a snapshot is taken. Two orders of two symbols at one price are enough to
break it (`symbols_isolated_fails`).

The proof carries `Parted` along the requests: the queues of a server that one symbol has for
itself are the part of the shared queues that belongs to the symbol. A request that stays apart
gets the same reply from the shared server and from the server of its symbol, and is not noticed
by any other symbol (`Parted.advances`); a request that does not stay apart is noticed
(`Parted.staysApart`).
-/

namespace FlowManager.System

open FlowManager.Lib FlowManager.Lib.PriceTime FlowManager.Book FlowManager.Broker
  FlowManager.Server

variable {L : Libraries} {sym : OrderId → Option String} {r : BrokerRequest}
  {rs : List BrokerRequest} {server server' : ServerState} {alone alone' : String → ServerState}
  {reply : Reply}

/-! ## What is carried along -/

/-- Every symbol has its part of the shared queues for itself. -/
structure Parted (sym : OrderId → Option String) (server : ServerState)
    (alone : String → ServerState) : Prop where
  whole : Invariant server.store
  parts : ∀ symbol, Invariant (alone symbol).store
  part : ∀ symbol, IsPart (ownedBy sym symbol) server.store.sides (alone symbol).store.sides

/-- What holds of the requests that are still to come. -/
structure Due (sym : OrderId → Option String) (reqs : List BrokerRequest) (server : ServerState) :
    Prop where
  sent : Sent reqs
  known : ∀ a, .addOrder a ∈ reqs → sym a.orderId = some a.symbol
  unused : ∀ a, .addOrder a ∈ reqs → Unused server.store.sides a.orderId

/-- What a request that stays apart does to all servers. -/
structure Advances (L : Libraries) (sym : OrderId → Option String) (r : BrokerRequest)
    (server : ServerState) (alone : String → ServerState) (reply : Reply) (server' : ServerState)
    (alone' : String → ServerState) : Prop where
  shared : serve L r.json server = some (reply, server')
  parted : Parted sym server' alone'
  concerned : ∀ symbol, r.symbol? sym = some symbol →
    serve L r.json (alone symbol) = some (reply, alone' symbol)
  others : ∀ symbol, r.symbol? sym ≠ some symbol →
    alone' symbol = alone symbol ∧ (Exchange.mk r reply).legsFor sym symbol = []
  trades : ∀ t ∈ tapeOf server', t ∈ tapeOf server ∨ Trade.OneSymbol sym t
  unused : ∀ id, (∀ a, r = .addOrder a → a.orderId ≠ id) → Unused server.store.sides id →
    Unused server'.store.sides id

/-- What is due behind a request once that has been exchanged. -/
theorem Due.advance (h : Due sym (r :: rs) server)
    (hadv : Advances L sym r server alone reply server' alone') : Due sym rs server' where
  sent := by
    refine ⟨?_, fun r' hr' => h.sent.fits r' (List.mem_cons_of_mem _ hr')⟩
    exact List.Nodup.sublist (((List.sublist_cons_self r rs).filterMap _).map _) h.sent.ids
  known a ha := h.known a (List.mem_cons_of_mem _ ha)
  unused a ha := by
    apply hadv.unused a.orderId _ (h.unused a (List.mem_cons_of_mem _ ha))
    rintro a' rfl heq
    have hids := h.sent.ids
    rw [List.filterMap_cons_some (show (BrokerRequest.addOrder a').added? = some a' from rfl),
      List.map_cons, List.nodup_cons] at hids
    apply hids.1
    rw [heq]
    exact List.mem_map_of_mem (List.mem_filterMap.mpr ⟨_, ha, rfl⟩)

/-! ## One request -/

/-- The legs of trades that are for one symbol are not for another. -/
theorem legsFor_eq_nil {x : Exchange} {ts : Trades} {symbol other : String}
    (hts : x.reply.trades = some (fillInfos ts))
    (hone : ∀ t ∈ ts, sym t.bidTrade.orderId = some symbol ∧ sym t.askTrade.orderId = some symbol)
    (hne : symbol ≠ other) : x.legsFor sym other = [] := by
  have hback : ∀ id : OrderId, UInt64.ofInt (id.toNat : ℤ) = id := by
    intro id
    have hlt : ((id.toNat : ℕ) : ℤ) < 2 ^ 64 := by exact_mod_cast id.toNat_lt
    apply UInt64.toNat_inj.mp
    exact_mod_cast toNat_ofInt64 (Int.natCast_nonneg _) hlt
  unfold Exchange.legsFor
  rw [hts, Option.getD_some, List.filter_eq_nil_iff]
  intro leg hleg hsym
  have hsym : sym (UInt64.ofInt leg.orderIdFilled) = some other := of_decide_eq_true hsym
  obtain ⟨t, ht, hleg⟩ := List.mem_flatMap.mp hleg
  obtain ⟨hbid, hask⟩ := hone t ht
  have hown : sym (UInt64.ofInt leg.orderIdFilled) = some symbol := by
    simp only [List.mem_cons, List.not_mem_nil, or_false] at hleg
    rcases hleg with rfl | rfl
    · show sym (UInt64.ofInt (t.bidTrade.orderId.toNat : ℤ)) = some symbol
      rw [hback, hbid]
    · show sym (UInt64.ofInt (t.askTrade.orderId.toNat : ℤ)) = some symbol
      rw [hback, hask]
  rw [hown] at hsym
  exact hne (Option.some.inj hsym)

/-- A new order that reaches only orders of its symbol. -/
theorem Parted.advances_addOrder (h : Parted sym server alone) {a : AddOrder}
    (hfits : BrokerRequest.Fits (.addOrder a)) (hknown : sym a.orderId = some a.symbol)
    (hunused : Unused server.store.sides a.orderId)
    (hapart : BrokerRequest.StaysApart sym server (.addOrder a)) :
    ∃ reply server' alone', Advances L sym (.addOrder a) server alone reply server' alone' := by
  obtain ⟨hb, hp, hq⟩ := hfits
  have hown : ownedBy sym a.symbol a.order.orderId = true := decide_eq_true hknown
  have hreach : ∀ x,
      ReachedBy a.order.toOrderTerms a.order.remainingQuantity.toNat server.store.sides x →
        ownedBy sym a.symbol x.terms.orderId = true := fun x hx => decide_eq_true (hapart x hx)
  -- the order on the shared server, and on the server of its symbol
  obtain ⟨ts, p, store, hcall, hi, hhandled⟩ := call_addOrder h.whole a.order hunused
  obtain ⟨ts', p', store', hcall', hi', hhandled'⟩ :=
    call_addOrder (h.parts a.symbol) a.order ((h.part a.symbol).unused hunused)
  obtain ⟨rfl, hobject, hpart⟩ :=
    hhandled.same hhandled' (h.part a.symbol) h.whole.toWellIndexed hown hreach
  have hserve := serve_addOrder_of_taken L a.clientOrderId a.symbol a.brokerOrdId a.price
    a.quantity a.sideIsBuy a.orderTypeStr hb hp hq hcall
  have hserve' := serve_addOrder_of_taken L a.clientOrderId a.symbol a.brokerOrdId a.price
    a.quantity a.sideIsBuy a.orderTypeStr hb hp hq hcall'
  rw [hobject] at hserve'
  have hone : ∀ t ∈ ts', sym t.bidTrade.orderId = some a.symbol ∧
      sym t.askTrade.orderId = some a.symbol := by
    intro t ht
    obtain ⟨x, hx, hjoins⟩ := (hhandled.parties h.whole.toWellIndexed).1 t ht
    rcases hjoins with ⟨hbid, hask⟩ | ⟨hbid, hask⟩
    · rw [hbid, hask]
      exact ⟨hknown, hapart x hx⟩
    · rw [hbid, hask]
      exact ⟨hapart x hx, hknown⟩
  refine ⟨_, _, Function.update alone a.symbol ⟨store', (alone a.symbol).bookings ++
    [⟨a.clientOrderId, a.order.toOrderTerms, ts'⟩]⟩, hserve, ?_, ?_, ?_, ?_, ?_⟩
  · refine ⟨hi, ?_, ?_⟩
    · intro symbol
      by_cases hsymbol : symbol = a.symbol
      · subst hsymbol
        rw [Function.update_self]
        exact hi'
      · rw [Function.update_of_ne hsymbol]
        exact h.parts symbol
    · intro symbol
      by_cases hsymbol : symbol = a.symbol
      · subst hsymbol
        rw [Function.update_self]
        exact hpart
      · have hnot : ∀ id, sym id = some a.symbol → ownedBy sym symbol id = false := by
          intro id hid
          apply decide_eq_false
          rw [hid]
          exact fun heq => hsymbol (Option.some.inj heq).symm
        rw [Function.update_of_ne hsymbol]
        show IsPart _ store.sides _
        rw [hhandled.sides]
        exact (h.part symbol).accept_of_not h.whole.toWellIndexed.inOrder hunused (hnot _ hknown)
          fun x hx => hnot _ (hapart x hx)
  · intro symbol hsymbol
    obtain rfl : a.symbol = symbol := Option.some.inj hsymbol
    rw [Function.update_self]
    exact hserve'
  · intro symbol hsymbol
    have hne : a.symbol ≠ symbol := fun heq => hsymbol (congrArg some heq)
    refine ⟨Function.update_of_ne hne.symm _ _, ?_⟩
    exact legsFor_eq_nil rfl hone hne
  · intro t ht
    rw [tapeOf_append server.store] at ht
    rcases List.mem_append.mp ht with ht | ht
    · exact Or.inl ht
    · exact Or.inr ⟨a.symbol, hone t ht⟩
  · intro id hid hunusedId
    show Unused store.sides id
    rw [hhandled.sides]
    exact hunusedId.accept h.whole.toWellIndexed.inOrder hunused (hid a rfl)

/-- A cancel reaches no one. -/
theorem Parted.advances_cancelOrder (h : Parted sym server alone) {b : ℤ} (hb : Json.Fits b) :
    ∃ reply server' alone', Advances L sym (.cancelOrder b) server alone reply server' alone' := by
  obtain ⟨store, hcall, hi, hsides, -⟩ := call_cancelOrder h.whole (UInt64.ofInt b)
  choose stores hcalls his hsidess _ using fun symbol =>
    call_cancelOrder (h.parts symbol) (UInt64.ofInt b)
  refine ⟨_, _, fun symbol => if sym (UInt64.ofInt b) = some symbol then
    { alone symbol with store := stores symbol } else alone symbol,
    serve_cancelOrder L hb hcall, ?_, ?_, ?_, ?_, ?_⟩
  · refine ⟨hi, ?_, ?_⟩
    · intro symbol
      dsimp only
      split_ifs
      · exact his symbol
      · exact h.parts symbol
    · intro symbol
      dsimp only
      rw [hsides]
      split_ifs with hsymbol
      · rw [hsidess symbol]
        exact (h.part symbol).withdraw _
      · exact (h.part symbol).withdraw_of_not (decide_eq_false hsymbol)
  · intro symbol hsymbol
    have hsymbol : sym (UInt64.ofInt b) = some symbol := hsymbol
    have hfound : decide (UInt64.ofInt b ∈ (alone symbol).store.book.ordersMap) =
        decide (UInt64.ofInt b ∈ server.store.book.ordersMap) := by
      rw [decide_eq_decide, ← not_iff_not, ← (h.parts symbol).toWellIndexed.unused_iff,
        ← h.whole.toWellIndexed.unused_iff]
      exact (h.part symbol).unused_iff (decide_eq_true hsymbol)
    rw [if_pos hsymbol, ← hfound]
    exact serve_cancelOrder L hb (hcalls symbol)
  · intro symbol hsymbol
    exact ⟨if_neg hsymbol, rfl⟩
  · intro t ht
    exact Or.inl ht
  · intro id _ hid
    show Unused store.sides id
    rw [hsides]
    exact hid.withdraw

/-- A snapshot in which nothing of the other symbols shows. -/
theorem Parted.advances_getBookInfo (h : Parted sym server alone) {symbol : String}
    (hapart : BrokerRequest.StaysApart sym server (.getBookInfo symbol)) :
    ∃ reply server' alone',
      Advances L sym (.getBookInfo symbol) server alone reply server' alone' := by
  refine ⟨_, server, alone, serve_getBookInfo L symbol server, h, ?_, ?_, ?_, ?_⟩
  · intro symbol' hsymbol
    obtain rfl : symbol = symbol' := Option.some.inj hsymbol
    obtain ⟨hbids, hasks⟩ := ((h.part symbol).levelInfos_eq_iff h.whole.toWellIndexed
      (h.parts symbol).toWellIndexed).mpr hapart
    rw [← hbids, ← hasks]
    exact serve_getBookInfo L symbol (alone symbol)
  · intro symbol' _
    exact ⟨rfl, rfl⟩
  · intro t ht
    exact Or.inl ht
  · intro id _ hid
    exact hid

/-- **A request that stays apart** gets the reply that its symbol gets alone, and no other symbol
notices it. -/
theorem Parted.advances (h : Parted sym server alone) (hdue : Due sym (r :: rs) server)
    (hapart : r.StaysApart sym server) :
    ∃ reply server' alone', Advances L sym r server alone reply server' alone' := by
  have hfits := hdue.sent.fits r List.mem_cons_self
  cases r with
  | addOrder a =>
      exact h.advances_addOrder hfits (hdue.known a List.mem_cons_self)
        (hdue.unused a List.mem_cons_self) hapart
  | cancelOrder b => exact h.advances_cancelOrder hfits
  | getBookInfo symbol => exact h.advances_getBookInfo hapart

/-! ## A request that does not stay apart -/

/-- A request is answered, and what has traded stays on the tape. -/
theorem serve_extends (L : Libraries) (hi : Invariant server.store) (hfits : r.Fits) :
    ∃ reply server', serve L r.json server = some (reply, server') ∧ Invariant server'.store ∧
      ∀ t ∈ tapeOf server, t ∈ tapeOf server' := by
  cases r with
  | addOrder a =>
      obtain ⟨hb, hp, hq⟩ := hfits
      obtain ⟨answer, store, hcall, hstep⟩ := call_steps hi (.addOrder a.order)
      have hi' := hstep.invariant hi
      have htaken : ∀ ts p, answer = .added ts (some p) →
          ∃ reply server', serve L (BrokerRequest.addOrder a).json server = some (reply, server') ∧
            Invariant server'.store ∧ ∀ t ∈ tapeOf server, t ∈ tapeOf server' := by
        rintro ts p rfl
        refine ⟨_, _, serve_addOrder_of_taken L a.clientOrderId a.symbol a.brokerOrdId a.price
          a.quantity a.sideIsBuy a.orderTypeStr hb hp hq hcall, hi', ?_⟩
        intro t ht
        rw [tapeOf_append server.store]
        exact List.mem_append_left _ ht
      cases hstep with
      | refused _ _ =>
          exact ⟨_, _, serve_addOrder_of_refused L a.clientOrderId a.symbol a.brokerOrdId a.price
            a.quantity a.sideIsBuy a.orderTypeStr hb hp hq hcall, hi', fun t ht => ht⟩
      | turnedAway _ _ _ _ => exact htaken _ _ rfl
      | accepted _ ts _ _ _ _ => exact htaken _ _ rfl
  | cancelOrder b =>
      obtain ⟨store, hcall, hi', -⟩ := call_cancelOrder hi (UInt64.ofInt b)
      exact ⟨_, _, serve_cancelOrder L hfits hcall, hi', fun t ht => ht⟩
  | getBookInfo symbol =>
      exact ⟨_, _, serve_getBookInfo L symbol server, hi, fun t ht => ht⟩

/-- The tape only grows. -/
theorem exchanges_extends {xs : List Exchange} {last : ServerState} (hi : Invariant server.store)
    (hfits : ∀ r ∈ rs, r.Fits) (hrun : exchanges L rs server = some (xs, last)) :
    ∀ t ∈ tapeOf server, t ∈ tapeOf last := by
  induction rs generalizing server xs with
  | nil =>
      cases hrun
      exact fun t ht => ht
  | cons r rs ih =>
      obtain ⟨hr, hrs⟩ := List.forall_mem_cons.mp hfits
      obtain ⟨reply, server', hserve, hi', hsub⟩ := serve_extends L hi hr
      obtain ⟨ys, -, hrest⟩ := (exchanges_cons_eq_some hserve).mp hrun
      exact fun t ht => ih hi' hrs hrest t (hsub t ht)

/-- Different levels have different replies. -/
theorem levelReply_injective : Function.Injective levelReply := by
  rintro ⟨p, q⟩ ⟨p', q'⟩ heq
  obtain ⟨hp, hq⟩ := LevelReply.mk.inj heq
  have hp : p = p' := UInt32.toNat_inj.mp (by exact_mod_cast hp)
  have hq : q = q' := UInt32.toNat_inj.mp (by exact_mod_cast hq)
  rw [hp, hq]

/-- A new order that reaches another symbol puts a trade of two symbols on the tape. -/
theorem Parted.staysApart_addOrder (h : Parted sym server alone) {a : AddOrder}
    (hdue : Due sym (.addOrder a :: rs) server)
    (hiso : IsolatedFrom L sym (.addOrder a :: rs) server alone) :
    BrokerRequest.StaysApart sym server (.addOrder a) := by
  have hknown := hdue.known a List.mem_cons_self
  obtain ⟨⟨hb, hp, hq⟩, hfits⟩ := List.forall_mem_cons.mp hdue.sent.fits
  obtain ⟨ts, p, store, hcall, hi, hhandled⟩ :=
    call_addOrder h.whole a.order (hdue.unused a List.mem_cons_self)
  have hserve := serve_addOrder_of_taken L a.clientOrderId a.symbol a.brokerOrdId a.price
    a.quantity a.sideIsBuy a.orderTypeStr hb hp hq hcall
  obtain ⟨xs, last, hrun, htape, -⟩ := hiso
  obtain ⟨ys, -, hrest⟩ := (exchanges_cons_eq_some (r := .addOrder a) hserve).mp hrun
  intro x hx
  obtain ⟨t, ht, hjoins⟩ := (hhandled.parties h.whole.toWellIndexed).2 x hx
  obtain ⟨symbol, hbid, hask⟩ := htape t <| by
    apply exchanges_extends hi hfits hrest
    rw [tapeOf_append server.store]
    exact List.mem_append_right _ ht
  have hknown : sym a.order.orderId = some a.symbol := hknown
  rcases hjoins with ⟨hb, ha⟩ | ⟨hb, ha⟩
  · rw [hb, hknown] at hbid
    rw [ha] at hask
    rw [hask, hbid]
  · rw [ha, hknown] at hask
    rw [hb] at hbid
    rw [hbid, hask]

/-- Other symbols that show in a snapshot are seen. -/
theorem Parted.staysApart_getBookInfo (h : Parted sym server alone) {symbol : String}
    (hiso : IsolatedFrom L sym (.getBookInfo symbol :: rs) server alone) :
    BrokerRequest.StaysApart sym server (.getBookInfo symbol) := by
  obtain ⟨xs, last, hrun, -, hviews⟩ := hiso
  obtain ⟨ys, alone', hrun', hview⟩ := hviews symbol
  rw [only_cons_of_symbol rfl] at hrun'
  obtain ⟨xs', rfl, -⟩ := (exchanges_cons_eq_some (r := .getBookInfo symbol)
    (serve_getBookInfo L symbol server)).mp hrun
  obtain ⟨ys', rfl, -⟩ := (exchanges_cons_eq_some (r := .getBookInfo symbol)
    (serve_getBookInfo L symbol (alone symbol))).mp hrun'
  have hinfos := congrArg SymbolView.bookInfos hview
  rw [viewOf_cons, viewOf_cons] at hinfos
  unfold Exchange.bookInfosFor at hinfos
  dsimp only at hinfos
  rw [if_pos rfl, if_pos rfl] at hinfos
  obtain ⟨hbids, hasks⟩ := Prod.mk.inj (List.cons.inj hinfos).1
  have hinj := List.map_injective_iff.mpr levelReply_injective
  exact ((h.part symbol).levelInfos_eq_iff h.whole.toWellIndexed
    (h.parts symbol).toWellIndexed).mp
      ⟨hinj (Option.some.inj hbids), hinj (Option.some.inj hasks)⟩

/-- **A request that does not stay apart is noticed.** -/
theorem Parted.staysApart (h : Parted sym server alone) (hdue : Due sym (r :: rs) server)
    (hiso : IsolatedFrom L sym (r :: rs) server alone) : r.StaysApart sym server := by
  cases r with
  | addOrder a => exact h.staysApart_addOrder hdue hiso
  | cancelOrder b => exact trivial
  | getBookInfo symbol => exact h.staysApart_getBookInfo hiso

/-! ## All requests -/

/-- After a request that stays apart, isolation is a matter of the requests that follow. -/
theorem Advances.isolatedFrom_cons (h : Advances L sym r server alone reply server' alone') :
    IsolatedFrom L sym (r :: rs) server alone ↔ IsolatedFrom L sym rs server' alone' := by
  have hviews : ∀ xs symbol,
      (∃ ys last, exchanges L (only sym symbol (r :: rs)) (alone symbol) = some (ys, last) ∧
        viewOf sym symbol ys = viewOf sym symbol (⟨r, reply⟩ :: xs)) ↔
      ∃ ys last, exchanges L (only sym symbol rs) (alone' symbol) = some (ys, last) ∧
        viewOf sym symbol ys = viewOf sym symbol xs := by
    intro xs symbol
    by_cases hsymbol : r.symbol? sym = some symbol
    · have hserve := h.concerned symbol hsymbol
      rw [only_cons_of_symbol hsymbol]
      constructor
      · rintro ⟨ys, last, hrun, hview⟩
        obtain ⟨ys', rfl, hrest⟩ := (exchanges_cons_eq_some hserve).mp hrun
        exact ⟨ys', last, hrest, viewOf_cons_inj.mp hview⟩
      · rintro ⟨ys, last, hrest, hview⟩
        exact ⟨_, last, (exchanges_cons_eq_some hserve).mpr ⟨ys, rfl, hrest⟩,
          viewOf_cons_inj.mpr hview⟩
    · obtain ⟨hsame, hlegs⟩ := h.others symbol hsymbol
      rw [only_cons_of_ne hsymbol, hsame, viewOf_cons_of_ne hsymbol hlegs]
  constructor
  · rintro ⟨xs, last, hrun, htape, hall⟩
    obtain ⟨xs', rfl, hrest⟩ := (exchanges_cons_eq_some h.shared).mp hrun
    exact ⟨xs', last, hrest, htape, fun symbol => (hviews xs' symbol).mp (hall symbol)⟩
  · rintro ⟨xs, last, hrest, htape, hall⟩
    exact ⟨_, last, (exchanges_cons_eq_some h.shared).mpr ⟨xs, rfl, hrest⟩, htape,
      fun symbol => (hviews xs symbol).mpr (hall symbol)⟩

/-- From servers that are parted, the symbols stay isolated exactly if the requests keep apart. -/
theorem Parted.isolatedFrom_iff (h : Parted sym server alone) (hdue : Due sym rs server)
    (htape : ∀ t ∈ tapeOf server, Trade.OneSymbol sym t) :
    IsolatedFrom L sym rs server alone ↔ KeepsApart L sym rs server := by
  induction rs generalizing server alone with
  | nil =>
      refine ⟨fun _ => trivial, fun _ => ⟨[], server, rfl, htape, ?_⟩⟩
      exact fun symbol => ⟨[], alone symbol, rfl, rfl⟩
  | cons r rs ih =>
      by_cases hapart : r.StaysApart sym server
      · obtain ⟨reply, server', alone', hadv⟩ := h.advances (L := L) hdue hapart
        have htape' : ∀ t ∈ tapeOf server', Trade.OneSymbol sym t := by
          intro t ht
          exact (hadv.trades t ht).elim (htape t) id
        rw [keepsApart_cons hadv.shared, hadv.isolatedFrom_cons,
          ih hadv.parted (hdue.advance hadv) htape']
        exact ⟨fun hrest => ⟨hapart, hrest⟩, fun hboth => hboth.2⟩
      · refine ⟨fun hiso => absurd (h.staysApart hdue hiso) hapart, ?_⟩
        exact fun hkeeps => absurd hkeeps.1 hapart

/-- **The symbols of a sequence of requests are isolated exactly if the requests keep apart**: no
new order reaches an order of another symbol, and no other symbol shows in a snapshot. -/
theorem symbols_isolated_iff (L : Libraries) (reqs : List BrokerRequest) (hsent : Sent reqs) :
    SymbolsIsolated L reqs ↔ KeepsApart L (symbolOf reqs) reqs .init := by
  have hempty : ∀ side, queueOf Store.empty.sides side = [] := by
    intro side
    cases side <;> rfl
  have hparted : Parted (symbolOf reqs) .init fun _ => .init := by
    refine ⟨invariant_empty, fun _ => invariant_empty, ?_⟩
    intro symbol side
    show queueOf Store.empty.sides side = (queueOf Store.empty.sides side).filter _
    rw [hempty]
    rfl
  apply hparted.isolatedFrom_iff
  · refine ⟨hsent, fun a ha => hsent.symbolOf ha, ?_⟩
    intro a _ side r hr
    have hr : r ∈ queueOf Store.empty.sides side := hr
    rw [hempty] at hr
    cases hr
  · intro t ht
    cases ht

/-- Two symbols whose prices do not cross. -/
theorem symbols_isolated_iff_two_prices :
    SymbolsIsolated Libraries.nlohmann
      [.addOrder ⟨"order-1", "AMD", 1, true, 100, 5, "GTC"⟩,
        .addOrder ⟨"order-2", "MSFT", 2, false, 101, 5, "GTC"⟩, .cancelOrder 1] := by
  apply (symbols_isolated_iff _ _ (by decide)).mpr
  refine ⟨?_, ?_⟩
  · intro x hx
    exact absurd hx.mem List.not_mem_nil
  · intro reply server hserve
    cases hserve
    refine ⟨?_, fun _ _ _ => ⟨trivial, fun _ _ _ => trivial⟩⟩
    intro x hx
    have hmem := List.mem_singleton.mp hx.mem
    have hcross := hx.1
    rw [hmem] at hcross
    exact absurd hcross (by decide)

/-- A bid for one symbol and an ask for another, at one price. -/
def twoSymbols : List BrokerRequest :=
  [.addOrder ⟨"order-1", "AMD", 1, true, 100, 5, "GTC"⟩,
    .addOrder ⟨"order-2", "MSFT", 2, false, 100, 5, "GTC"⟩]

/-- **The book of the server is one for all symbols**: the bid and the ask trade. -/
theorem symbols_isolated_fails :
    Sent twoSymbols ∧ ¬SymbolsIsolated Libraries.nlohmann twoSymbols := by
  refine ⟨by decide, ?_⟩
  rintro ⟨xs, server, hrun, htape, -⟩
  have hids : (exchanges Libraries.nlohmann twoSymbols .init).map (fun run =>
      (tapeOf run.2).map fun t => (t.bidTrade.orderId, t.askTrade.orderId)) = some [(1, 2)] := rfl
  rw [hrun] at hids
  have hids : (tapeOf server).map (fun t => (t.bidTrade.orderId, t.askTrade.orderId)) = [(1, 2)] :=
    Option.some.inj hids
  obtain ⟨t, ht, heq⟩ := List.mem_map.mp (hids ▸ List.mem_singleton_self _)
  obtain ⟨hbid, hask⟩ := Prod.mk.inj heq
  obtain ⟨symbol, hsymbol, hsymbol'⟩ := htape t ht
  rw [hbid] at hsymbol
  rw [hask] at hsymbol'
  have hamd : symbolOf twoSymbols 1 = some "AMD" := rfl
  have hmsft : symbolOf twoSymbols 2 = some "MSFT" := rfl
  rw [hamd] at hsymbol
  rw [hmsft, ← hsymbol] at hsymbol'
  exact absurd hsymbol' (by decide)

end FlowManager.System
