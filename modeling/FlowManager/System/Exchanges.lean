import FlowManager.Book.Snapshot
import FlowManager.System.Run

/-!
# Requests for several symbols

Sequences of the three requests of the broker, as the server executes them, and what one symbol
sees of them. `ADD_ORDER` and `GET_BOOK_INFO` carry a symbol; `CANCEL_ORDER` concerns the symbol of
the order that it names. The server reads no symbol anywhere, so which id belongs to which symbol
is known from the requests only (`symbolOf`).

`IsolatedFrom` is what one expects of a book for several symbols: every symbol sees what it would
see alone, and no trade joins two symbols. `KeepsApart` is the condition under which the server,
with its one book, gives it.
-/

namespace FlowManager.System

open FlowManager.Lib FlowManager.Lib.PriceTime FlowManager.Book FlowManager.Broker
  FlowManager.Server

/-! ## Requests -/

/-- What an `ADD_ORDER` is made of. -/
structure AddOrder where
  clientOrderId : String
  symbol : String
  brokerOrdId : ℤ
  sideIsBuy : Bool
  price : ℤ
  quantity : ℤ
  orderTypeStr : String
  deriving DecidableEq

/-- The id under which the server books the order. -/
def AddOrder.orderId (a : AddOrder) : OrderId := UInt64.ofInt a.brokerOrdId

/-- The order that the server makes of it. -/
def AddOrder.order (a : AddOrder) : Order :=
  bookedOrder a.brokerOrdId a.price a.quantity a.sideIsBuy a.orderTypeStr

/-- A request of the broker. -/
inductive BrokerRequest where
  | addOrder (a : AddOrder)
  | cancelOrder (brokerOrdId : ℤ)
  | getBookInfo (symbol : String)
  deriving DecidableEq

/-- The request as it is sent. -/
def BrokerRequest.json : BrokerRequest → Json
  | .addOrder a => addOrderRequest a.clientOrderId a.brokerOrdId a.symbol a.sideIsBuy a.price
      a.quantity a.orderTypeStr
  | .cancelOrder brokerOrdId => cancelOrderRequest brokerOrdId
  | .getBookInfo symbol => getBookInfoRequest symbol

/-- The order that a request submits. -/
def BrokerRequest.added? : BrokerRequest → Option AddOrder
  | .addOrder a => some a
  | .cancelOrder _ => none
  | .getBookInfo _ => none

/-- The integers of a request are integers for the JSON library. -/
def BrokerRequest.Fits : BrokerRequest → Prop
  | .addOrder a => Json.Fits a.brokerOrdId ∧ Json.Fits a.price ∧ Json.Fits a.quantity
  | .cancelOrder brokerOrdId => Json.Fits brokerOrdId
  | .getBookInfo _ => True

/-- Whether the numbers of a request fit is decided. -/
instance : DecidablePred BrokerRequest.Fits
  | .addOrder _ => by unfold BrokerRequest.Fits Json.Fits; infer_instance
  | .cancelOrder _ => by unfold BrokerRequest.Fits Json.Fits; infer_instance
  | .getBookInfo _ => inferInstanceAs (Decidable True)

/-- What the broker keeps to when it sends: no broker id is given to two orders. -/
structure Sent (reqs : List BrokerRequest) : Prop where
  ids : ((reqs.filterMap BrokerRequest.added?).map AddOrder.orderId).Nodup
  fits : ∀ r ∈ reqs, r.Fits

/-- Whether the requests are ones that the broker sends is decided. -/
instance (reqs : List BrokerRequest) : Decidable (Sent reqs) :=
  decidable_of_iff (((reqs.filterMap BrokerRequest.added?).map AddOrder.orderId).Nodup ∧
    ∀ r ∈ reqs, r.Fits) ⟨fun ⟨h₁, h₂⟩ => ⟨h₁, h₂⟩, fun ⟨h₁, h₂⟩ => ⟨h₁, h₂⟩⟩

/-! ## Symbols -/

/-- The symbol under which an id is submitted. -/
def symbolOf (reqs : List BrokerRequest) (id : OrderId) : Option String :=
  ((reqs.filterMap BrokerRequest.added?).find? fun a => decide (a.orderId = id)).map
    AddOrder.symbol

/-- The symbol that a request concerns; `sym` is the symbol of an id. -/
def BrokerRequest.symbol? (sym : OrderId → Option String) : BrokerRequest → Option String
  | .addOrder a => some a.symbol
  | .cancelOrder brokerOrdId => sym (UInt64.ofInt brokerOrdId)
  | .getBookInfo symbol => some symbol

/-- The requests that concern a symbol. -/
def only (sym : OrderId → Option String) (symbol : String) (reqs : List BrokerRequest) :
    List BrokerRequest :=
  reqs.filter fun r => decide (r.symbol? sym = some symbol)

/-! ## Execution -/

/-- A request with its reply. -/
structure Exchange where
  request : BrokerRequest
  reply : Reply
  deriving DecidableEq

/-- Execute a sequence of requests. -/
def exchanges (L : Libraries) :
    List BrokerRequest → ServerState → Option (List Exchange × ServerState)
  | [], server => some ([], server)
  | r :: rs, server =>
      match serve L r.json server with
      | none => none
      | some (reply, server') =>
          (exchanges L rs server').map fun run => (⟨r, reply⟩ :: run.1, run.2)

/-- What the requests show of a symbol. -/
structure SymbolView where
  /-- The legs of trades that were reported for orders of the symbol. -/
  trades : List FillInfo
  /-- The final statuses in the replies to the requests for orders of the symbol. -/
  finalStatuses : List (Option BookStatus × Option CancelStatus)
  /-- The snapshots for the symbol. -/
  bookInfos : List (Option (List LevelReply) × Option (List LevelReply))
  deriving DecidableEq

section view

variable (sym : OrderId → Option String) (symbol : String)

/-- The legs of a reply that are for orders of the symbol. -/
def Exchange.legsFor (x : Exchange) : List FillInfo :=
  (x.reply.trades.getD []).filter fun leg =>
    decide (sym (UInt64.ofInt leg.orderIdFilled) = some symbol)

/-- The final statuses of the reply, if the request concerns the symbol. -/
def Exchange.finalStatusesFor (x : Exchange) : List (Option BookStatus × Option CancelStatus) :=
  if x.request.symbol? sym = some symbol then
    [(x.reply.orderFinalStatusInBook, x.reply.finalStatus)]
  else []

/-- The snapshot of the reply, if it was asked for the symbol. -/
def Exchange.bookInfosFor (x : Exchange) :
    List (Option (List LevelReply) × Option (List LevelReply)) :=
  if x.request = .getBookInfo symbol then [(x.reply.bids, x.reply.asks)] else []

/-- What the symbol sees. -/
def viewOf (xs : List Exchange) : SymbolView where
  trades := xs.flatMap (Exchange.legsFor sym symbol)
  finalStatuses := xs.flatMap (Exchange.finalStatusesFor sym symbol)
  bookInfos := xs.flatMap (Exchange.bookInfosFor symbol)

end view

/-- The two orders of a trade are for one symbol. -/
def Trade.OneSymbol (sym : OrderId → Option String) (t : Trade) : Prop :=
  ∃ symbol, sym t.bidTrade.orderId = some symbol ∧ sym t.askTrade.orderId = some symbol

/-- From a server and, for each symbol, a server that this symbol has for itself: the requests are
all answered, no trade joins two symbols, and each symbol sees the same on its own server. -/
def IsolatedFrom (L : Libraries) (sym : OrderId → Option String) (reqs : List BrokerRequest)
    (server : ServerState) (alone : String → ServerState) : Prop :=
  ∃ xs server', exchanges L reqs server = some (xs, server') ∧
    (∀ t ∈ tapeOf server', Trade.OneSymbol sym t) ∧
    ∀ symbol, ∃ ys alone', exchanges L (only sym symbol reqs) (alone symbol) = some (ys, alone') ∧
      viewOf sym symbol ys = viewOf sym symbol xs

/-- **Symbol isolation**: for every symbol, deleting the requests for all other symbols changes
nothing that the symbol sees; and the two orders of a trade are for one symbol. -/
def SymbolsIsolated (L : Libraries) (reqs : List BrokerRequest) : Prop :=
  IsolatedFrom L (symbolOf reqs) reqs .init fun _ => .init

/-! ## The condition -/

/-- The ids of a symbol. -/
def ownedBy (sym : OrderId → Option String) (symbol : String) (id : OrderId) : Bool :=
  decide (sym id = some symbol)

/-- A new order reaches only orders of its symbol; and where a snapshot is taken for a symbol,
nothing of the other orders shows. -/
def BrokerRequest.StaysApart (sym : OrderId → Option String) (server : ServerState) :
    BrokerRequest → Prop
  | .addOrder a => ∀ x,
      ReachedBy a.order.toOrderTerms a.order.remainingQuantity.toNat server.store.sides x →
        sym x.terms.orderId = some a.symbol
  | .cancelOrder _ => True
  | .getBookInfo symbol => AllHidden (ownedBy sym symbol) server.store.sides

/-- Every request meets the condition in the state in which it is executed. -/
def KeepsApart (L : Libraries) (sym : OrderId → Option String) :
    List BrokerRequest → ServerState → Prop
  | [], _ => True
  | r :: rs, server => r.StaysApart sym server ∧
      ∀ reply server', serve L r.json server = some (reply, server') →
        KeepsApart L sym rs server'

/-! ## Equations -/

section equations

variable {L : Libraries} {sym : OrderId → Option String} {symbol : String} {r : BrokerRequest}
  {rs : List BrokerRequest} {server server' : ServerState} {reply : Reply}

/-- A request for the symbol is one of its own. -/
theorem only_cons_of_symbol (h : r.symbol? sym = some symbol) :
    only sym symbol (r :: rs) = r :: only sym symbol rs :=
  List.filter_cons_of_pos (decide_eq_true h)

/-- A request for another symbol is not. -/
theorem only_cons_of_ne (h : r.symbol? sym ≠ some symbol) :
    only sym symbol (r :: rs) = only sym symbol rs :=
  List.filter_cons_of_neg (by simpa using h)

/-- The exchange of a request, and those behind it. -/
theorem exchanges_cons (h : serve L r.json server = some (reply, server')) :
    exchanges L (r :: rs) server =
      (exchanges L rs server').map fun run => (⟨r, reply⟩ :: run.1, run.2) := by
  rw [exchanges, h]

/-- How requests have been exchanged, with one more. -/
theorem exchanges_cons_eq_some (h : serve L r.json server = some (reply, server'))
    {xs : List Exchange} {last : ServerState} :
    exchanges L (r :: rs) server = some (xs, last) ↔
      ∃ ys, xs = ⟨r, reply⟩ :: ys ∧ exchanges L rs server' = some (ys, last) := by
  rw [exchanges_cons h, Option.map_eq_some_iff]
  constructor
  · rintro ⟨⟨ys, last'⟩, hrun, heq⟩
    cases heq
    exact ⟨ys, rfl, hrun⟩
  · rintro ⟨ys, rfl, hrun⟩
    exact ⟨(ys, last), hrun, rfl⟩

/-- The first request stays apart, and so do those behind it. -/
theorem keepsApart_cons (h : serve L r.json server = some (reply, server')) :
    KeepsApart L sym (r :: rs) server ↔
      r.StaysApart sym server ∧ KeepsApart L sym rs server' := by
  show (_ ∧ _) ↔ _
  rw [h]
  constructor
  · rintro ⟨hr, hrest⟩
    exact ⟨hr, hrest reply server' rfl⟩
  · rintro ⟨hr, hrest⟩
    refine ⟨hr, ?_⟩
    intro _ _ heq
    cases heq
    exact hrest

/-- What a symbol sees, with one more exchange. -/
theorem viewOf_cons (x : Exchange) (xs : List Exchange) :
    viewOf sym symbol (x :: xs) =
      ⟨x.legsFor sym symbol ++ (viewOf sym symbol xs).trades,
        x.finalStatusesFor sym symbol ++ (viewOf sym symbol xs).finalStatuses,
        x.bookInfosFor symbol ++ (viewOf sym symbol xs).bookInfos⟩ := rfl

/-- The same exchange in front changes nothing. -/
theorem viewOf_cons_inj {x : Exchange} {xs ys : List Exchange} :
    viewOf sym symbol (x :: ys) = viewOf sym symbol (x :: xs) ↔
      viewOf sym symbol ys = viewOf sym symbol xs := by
  rw [viewOf_cons, viewOf_cons, SymbolView.mk.injEq, List.append_cancel_left_eq,
    List.append_cancel_left_eq, List.append_cancel_left_eq]
  cases viewOf sym symbol xs
  cases viewOf sym symbol ys
  rw [SymbolView.mk.injEq]

/-- An exchange that does not concern the symbol and reports no trade of it is not seen. -/
theorem viewOf_cons_of_ne {x : Exchange} {xs : List Exchange}
    (hsymbol : x.request.symbol? sym ≠ some symbol) (hlegs : x.legsFor sym symbol = []) :
    viewOf sym symbol (x :: xs) = viewOf sym symbol xs := by
  have hinfo : x.request ≠ .getBookInfo symbol := by
    intro heq
    rw [heq] at hsymbol
    exact hsymbol rfl
  rw [viewOf_cons, hlegs]
  unfold Exchange.finalStatusesFor Exchange.bookInfosFor
  rw [if_neg hsymbol, if_neg hinfo]
  rfl

/-- In requests as the broker sends them, the symbol of an id is that of its order. -/
theorem Sent.symbolOf {reqs : List BrokerRequest} (h : Sent reqs) {a : AddOrder}
    (ha : .addOrder a ∈ reqs) : symbolOf reqs a.orderId = some a.symbol := by
  have hmem : a ∈ reqs.filterMap BrokerRequest.added? := List.mem_filterMap.mpr ⟨_, ha, rfl⟩
  have hids := h.ids
  unfold FlowManager.System.symbolOf
  cases hfind : (reqs.filterMap BrokerRequest.added?).find? fun a' =>
      decide (a'.orderId = a.orderId) with
  | none =>
      have hne := List.find?_eq_none.mp hfind a hmem
      exact absurd (decide_eq_true rfl) hne
  | some a' =>
      have hid : a'.orderId = a.orderId := by simpa using List.find?_some hfind
      rw [List.inj_on_of_nodup_map hids (List.mem_of_find?_eq_some hfind) hmem hid]
      rfl

end equations

end FlowManager.System
