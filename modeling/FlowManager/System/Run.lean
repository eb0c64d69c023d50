import FlowManager.Book.View
import FlowManager.Broker.LockDiscipline
import FlowManager.Broker.Stream
import FlowManager.System.Requests

/-!
# The broker and the server together

The other end of the broker's socket is the order book server, for as long as there is one. A
request that arrives is executed, and its reply is delivered or lost; a lost reply is what
`_send_request_to_ob` makes of a timeout.

`Run` are the runs of calls on the broker that have all returned. Client ids are fresh, and prices,
quantities and broker ids are representable in the types of the server. `guard` is a condition on
each step of the run, checked before it.
-/

namespace FlowManager.System

open FlowManager.Lib FlowManager.Book FlowManager.Broker FlowManager.Server

/-! ## The connection -/

/-- What becomes of the reply to a request. -/
inductive Delivery where
  | delivered
  | lost
  deriving DecidableEq, Repr

/-- The broker with the server at the other end: `none` once the server has stopped. -/
abbrev BrokerAndServer : Type := CppOrderBookBroker (Option ServerState)

/-- Send a request to the server.
Source: `cpp_ob_broker.py`, `CppOrderBookBroker._send_request_to_ob` -/
def transport (L : Libraries) (delivery : Delivery) (request : Json) :
    Option ServerState → Option Reply × Option ServerState
  | none => (none, none)
  | some server =>
      match serve L request server with
      | none => (none, none)
      | some (reply, server') =>
          (if delivery = .delivered then some reply else none, some server')

section transport

variable {L : Libraries} {request : Json} {server server' : ServerState} {reply : Reply}

/-- A reply that is delivered arrives. -/
theorem transport_delivered (h : serve L request server = some (reply, server')) :
    transport L .delivered request (some server) = (some reply, some server') := by
  unfold transport
  dsimp only
  rw [h]
  rfl

/-- A reply that is lost does not, though the server has gone on. -/
theorem transport_lost (h : serve L request server = some (reply, server')) :
    transport L .lost request (some server) = (none, some server') := by
  unfold transport
  dsimp only
  rw [h]
  rfl

end transport

/-! ## Runs -/

/-- The arguments of `submit_order`: an order of the client. -/
structure Submission where
  clientOrderId : String
  symbol : String
  quantity : ℤ
  sideIsBuy : Bool
  orderTypeStr : String
  price : Option PyFloat
  deriving DecidableEq

/-- The order that a call submits. -/
def submission? : BrokerCall → Option Submission
  | .submitOrder clientOrderId symbol quantity sideIsBuy orderTypeStr price =>
      some ⟨clientOrderId, symbol, quantity, sideIsBuy, orderTypeStr, price⟩
  | .cancelOrder _ => none

/-- A call and what becomes of the reply to its request. -/
structure Event where
  call : BrokerCall
  delivery : Delivery
  deriving DecidableEq

/-- The orders of a run, in the order in which they were submitted. -/
def submissions (es : List Event) : List Submission := es.filterMap fun e => submission? e.call

/-- The submissions of a run, with one more call. -/
theorem submissions_append (es : List Event) (e : Event) :
    submissions (es ++ [e]) = submissions es ++ (submission? e.call).toList := by
  unfold submissions
  rw [List.filterMap_append]
  rcases hcall : submission? e.call with _ | σ <;> simp [hcall]

/-- Python's `int` makes a price of the server of it, if there is one. -/
def PriceFits : Option PyFloat → Prop
  | none => True
  | some price => ∃ n ∈ (pyInt price).toOption, 0 ≤ n ∧ n < 2 ^ 32

/-- Whether a price fits is decided. -/
instance : DecidablePred PriceFits
  | none => inferInstanceAs (Decidable True)
  | some price => inferInstanceAs (Decidable (∃ n ∈ (pyInt price).toOption, 0 ≤ n ∧ n < 2 ^ 32))

/-- A price that fits is an integer in its range. -/
theorem PriceFits.exists_pyInt {price : PyFloat} (h : PriceFits (some price)) :
    ∃ n, pyInt price = .ok n ∧ 0 ≤ n ∧ n < 2 ^ 32 := by
  obtain ⟨n, hn, hrange⟩ := h
  refine ⟨n, ?_, hrange⟩
  cases hint : pyInt price with
  | ok n' =>
      rw [hint] at hn
      cases hn
      rfl
  | error e =>
      rw [hint] at hn
      cases hn

/-- What the callers promise of an order that follows `past`, to be sent under the broker id `b`. -/
structure Submission.Admissible (σ : Submission) (past : List Submission) (b : ℤ) : Prop where
  fresh : ∀ σ' ∈ past, σ'.clientOrderId ≠ σ.clientOrderId
  quantity : 0 ≤ σ.quantity ∧ σ.quantity < 2 ^ 32
  price : PriceFits σ.price
  id : b < 2 ^ 64

/-- Whether a submission is admissible is decided. -/
instance (σ : Submission) (past : List Submission) (b : ℤ) : Decidable (σ.Admissible past b) :=
  decidable_of_iff ((∀ σ' ∈ past, σ'.clientOrderId ≠ σ.clientOrderId) ∧
      (0 ≤ σ.quantity ∧ σ.quantity < 2 ^ 32) ∧ PriceFits σ.price ∧ b < 2 ^ 64)
    ⟨fun ⟨h₁, h₂, h₃, h₄⟩ => ⟨h₁, h₂, h₃, h₄⟩, fun ⟨h₁, h₂, h₃, h₄⟩ => ⟨h₁, h₂, h₃, h₄⟩⟩

/-- A number that is not negative fits as soon as it is below 2^64. -/
theorem fits_of_nonneg {n : ℤ} (h0 : 0 ≤ n) (h : n < 2 ^ 64) : Json.Fits n :=
  ⟨by omega, h⟩

/-- The quantity of an order and its price made whole fit in 64 bits, so that their conversions at the
server are defined. -/
structure Submission.Fits (σ : Submission) : Prop where
  quantity : Json.Fits σ.quantity
  price : ∀ price ∈ σ.price, ∀ n ∈ (pyInt price).toOption, Json.Fits n

/-- Whether the numbers of a submission fit is decided. -/
instance (σ : Submission) : Decidable σ.Fits :=
  decidable_of_iff (Json.Fits σ.quantity ∧
      ∀ price ∈ σ.price, ∀ n ∈ (pyInt price).toOption, Json.Fits n)
    ⟨fun ⟨h₁, h₂⟩ => ⟨h₁, h₂⟩, fun ⟨h₁, h₂⟩ => ⟨h₁, h₂⟩⟩

/-- And so does the broker id `b`. -/
structure Submission.Carried (σ : Submission) (b : ℤ) : Prop extends σ.Fits where
  id : b < 2 ^ 64

/-- The price of a request fits. -/
theorem Submission.Fits.price_of {σ : Submission} (h : σ.Fits) {price : PyFloat} {n : ℤ}
    (hprice : σ.price = some price) (hn : pyInt price = .ok n) : Json.Fits n :=
  h.price price hprice n (by rw [hn]; rfl)

/-- What fits the types of the server fits in 64 bits. -/
theorem Submission.Admissible.carried {σ : Submission} {past : List Submission} {b : ℤ}
    (h : σ.Admissible past b) : σ.Carried b := by
  refine ⟨⟨fits_of_nonneg h.quantity.1 (by have := h.quantity.2; omega), ?_⟩, h.id⟩
  intro price hprice n hn
  have hfits := h.price
  rw [Option.mem_def.mp hprice] at hfits
  obtain ⟨n', hn', hn0, hn32⟩ := hfits
  obtain rfl := Option.some.inj (hn.symm.trans hn')
  exact fits_of_nonneg hn0 (by omega)

/-- The runs whose calls have all returned, with `guard` before each. -/
inductive Run (L : Libraries) (guard : BrokerAndServer → Event → Prop) :
    List Event → BrokerAndServer → Prop
  | init : Run L guard [] (.init (some .init))
  | call {es : List Event} {e : Event} {s s' : BrokerAndServer} {result : CallResult} :
      Run L guard es s →
      (∀ σ ∈ submission? e.call, σ.Admissible (submissions es) (s.brokerOrderIdCounter + 1)) →
      guard s e →
      (e.call.run (transport L e.delivery)).run s = .returned result s' →
      Run L guard (es ++ [e]) s'

/-- A run under one guard is a run under a weaker one. -/
theorem Run.mono {L : Libraries} {guard guard' : BrokerAndServer → Event → Prop}
    {es : List Event} {s : BrokerAndServer} (h : Run L guard es s)
    (hguard : ∀ s e, guard s e → guard' s e) : Run L guard' es s := by
  induction h with
  | init => exact .init
  | call _ hadm hg hrun ih => exact .call ih hadm (hguard _ _ hg) hrun

/-- The state after a call, however it ends. -/
def after (L : Libraries) (s : BrokerAndServer) (e : Event) : BrokerAndServer :=
  ((e.call.run (transport L e.delivery)).run s).state

/-- What a call returns, if it does. -/
def resultOf (L : Libraries) (s : BrokerAndServer) (e : Event) : Option CallResult :=
  match (e.call.run (transport L e.delivery)).run s with
  | .returned result _ => some result
  | _ => none

/-- **A call that returns** is a submission or a cancel that does. -/
theorem returned_cases {L : Libraries} {e : Event} {s s' : BrokerAndServer} {result : CallResult}
    (h : (e.call.run (transport L e.delivery)).run s = .returned result s') :
    (∃ σ brokerOrdId, submission? e.call = some σ ∧
      (submitOrder (transport L e.delivery) σ.clientOrderId σ.symbol σ.quantity σ.sideIsBuy
        σ.orderTypeStr σ.price).run s = .returned brokerOrdId s') ∨
    ∃ clientOrderId accepted, submission? e.call = none ∧
      (cancelOrder (transport L e.delivery) clientOrderId).run s = .returned accepted s' := by
  obtain ⟨call, delivery⟩ := e
  cases call with
  | submitOrder clientOrderId symbol quantity sideIsBuy orderTypeStr price =>
      rw [BrokerCall.run, Proc.run_bind, Outcome.bind_eq_returned] at h
      obtain ⟨brokerOrdId, _, hsubmit, hret⟩ := h
      cases hret
      exact .inl ⟨⟨clientOrderId, symbol, quantity, sideIsBuy, orderTypeStr, price⟩, brokerOrdId, rfl,
        hsubmit⟩
  | cancelOrder clientOrderId =>
      rw [BrokerCall.run, Proc.run_bind, Outcome.bind_eq_returned] at h
      obtain ⟨accepted, _, hcancel, hret⟩ := h
      cases hret
      exact .inr ⟨clientOrderId, accepted, rfl, hcancel⟩

/-- A run goes on with a call that returns. -/
theorem Run.next {L : Libraries} {guard : BrokerAndServer → Event → Prop} {es : List Event}
    {s : BrokerAndServer} (h : Run L guard es s) (e : Event)
    (hadm : ∀ σ ∈ submission? e.call,
      σ.Admissible (submissions es) (s.brokerOrderIdCounter + 1))
    (hguard : guard s e) (hresult : (resultOf L s e).isSome = true) :
    Run L guard (es ++ [e]) (after L s e) := by
  cases hrun : (e.call.run (transport L e.delivery)).run s with
  | returned result s' =>
      have hafter : after L s e = s' := by
        unfold after
        rw [hrun]
        rfl
      rw [hafter]
      exact .call h hadm hguard hrun
  | raised _ _ =>
      unfold resultOf at hresult
      rw [hrun] at hresult
      cases hresult
  | stuck _ =>
      unfold resultOf at hresult
      rw [hrun] at hresult
      cases hresult

/-- The state at the end of a list of calls. -/
def afterAll (L : Libraries) (es : List Event) : BrokerAndServer :=
  es.foldl (after L) (.init (some .init))

/-- The list ends with one call more. -/
theorem afterAll_append (L : Libraries) (es : List Event) (e : Event) :
    afterAll L (es ++ [e]) = after L (afterAll L es) e := by
  unfold afterAll
  rw [List.foldl_append]
  rfl

/-- The state after a call that has returned. -/
theorem after_of_returned {L : Libraries} {s s' : BrokerAndServer} {e : Event}
    {result : CallResult} (h : (e.call.run (transport L e.delivery)).run s = .returned result s') :
    after L s e = s' := by
  unfold after
  rw [h]
  rfl

/-- A run has one end. -/
theorem Run.eq_afterAll {L : Libraries} {guard : BrokerAndServer → Event → Prop} {es : List Event}
    {s : BrokerAndServer} (h : Run L guard es s) : s = afterAll L es := by
  induction h with
  | init => rfl
  | call _ _ _ hcall ih => rw [afterAll_append, ← ih, after_of_returned hcall]

/-- The calls with which a run begins are a run. -/
theorem Run.of_prefix {L : Libraries} {guard : BrokerAndServer → Event → Prop}
    {es es' : List Event} {s : BrokerAndServer} (h : Run L guard es s) (hstart : es' <+: es) :
    Run L guard es' (afterAll L es') := by
  induction h with
  | init =>
      rw [List.prefix_nil.mp hstart]
      exact .init
  | @call es e s s' result hrun hadm hguard hcall ih =>
      rcases List.prefix_concat_iff.mp hstart with rfl | hbefore
      · rw [afterAll_append, ← hrun.eq_afterAll, after_of_returned hcall]
        exact .call hrun hadm hguard hcall
      · exact ih hbefore

/-- A run without calls. -/
theorem run_nil (L : Libraries) (guard : BrokerAndServer → Event → Prop) :
    Run L guard [] (afterAll L []) := .init

/-- A list of calls that all return is a run. -/
theorem Run.extend {L : Libraries} {guard : BrokerAndServer → Event → Prop} {es : List Event}
    (h : Run L guard es (afterAll L es)) (e : Event)
    (hadm : ∀ σ ∈ submission? e.call,
      σ.Admissible (submissions es) ((afterAll L es).brokerOrderIdCounter + 1))
    (hguard : guard (afterAll L es) e) (hresult : (resultOf L (afterAll L es) e).isSome = true) :
    Run L guard (es ++ [e]) (afterAll L (es ++ [e])) := by
  rw [afterAll_append]
  exact h.next e hadm hguard hresult

/-! ## What happened to an order in the book -/

/-- Every trade of the book so far. -/
def tapeOf (server : ServerState) : Trades := server.bookings.flatMap (·.trades)

/-- The ids under which the book was given a client's order. -/
def bookedIds (server : ServerState) (clientOrderId : String) : List OrderId :=
  (server.bookings.filter fun k => k.clientOrderId = clientOrderId).map (·.terms.orderId)

/-- The quantity of a client's order that has traded in the book. -/
def tradedFor (server : ServerState) (clientOrderId : String) : ℕ :=
  ((bookedIds server clientOrderId).map (traded (tapeOf server))).sum

/-- A client's order rests in the book. -/
def RestsInBook (server : ServerState) (clientOrderId : String) : Prop :=
  ∃ id ∈ bookedIds server clientOrderId, server.store.resting? id ≠ none

/-- The ids booked for a client, with one more booking. -/
theorem bookedIds_append (store store' : Store) (ks : List Booking) (k : Booking)
    (clientOrderId : String) :
    bookedIds ⟨store', ks ++ [k]⟩ clientOrderId = bookedIds ⟨store, ks⟩ clientOrderId ++
      if k.clientOrderId = clientOrderId then [k.terms.orderId] else [] := by
  unfold bookedIds
  rw [List.filter_append, List.map_append, List.filter_singleton]
  split_ifs <;> simp_all

/-- The tape, with one more booking. -/
theorem tapeOf_append (store store' : Store) (ks : List Booking) (k : Booking) :
    tapeOf ⟨store', ks ++ [k]⟩ = tapeOf ⟨store, ks⟩ ++ k.trades := by
  unfold tapeOf
  rw [List.flatMap_append, List.flatMap_singleton]

/-! ## Numbers at the server -/

/-- A broker id that fits is read back. -/
theorem toNat_ofInt64 {b : ℤ} (h0 : 0 ≤ b) (h : b < 2 ^ 64) :
    ((UInt64.ofInt b).toNat : ℤ) = b := by
  unfold UInt64.ofInt
  rw [Int.emod_eq_of_lt h0 h, UInt64.toNat_ofNat_of_lt', Int.toNat_of_nonneg h0]
  show b.toNat < 2 ^ 64
  omega

/-- A price or a quantity that fits is read back. -/
theorem toNat_ofInt32 {n : ℤ} (h0 : 0 ≤ n) (h : n < 2 ^ 32) :
    ((UInt32.ofInt n).toNat : ℤ) = n := by
  unfold UInt32.ofInt
  rw [Int.emod_eq_of_lt h0 h, UInt32.toNat_ofNat_of_lt', Int.toNat_of_nonneg h0]
  show n.toNat < 2 ^ 32
  omega

end FlowManager.System
