import FlowManager.Book.Steps
import FlowManager.Server.JsonLibrary
import FlowManager.Server.OrderBookServer

/-!
# What the handler does with a request

`Served` lists what the handler can do with a request that it gets to, guards included, and
`serve_served` says that it does one of these things with every request that can be logged. The
rest never gets an answer (`serve_eq_none_of_not_loggable`): the log line is written before the
`try` block.

The echo at the end of `ADD_ORDER` reads two fields again, after the order is in the book. It does
not throw: the client's id has been logged as a string, and what has been decoded as an order id is
a number.
-/

namespace FlowManager.Server

open FlowManager.Lib FlowManager.Book

/-! ## Calls and fields -/

section procedures

variable (L : Libraries) {session : Session}

/-- A procedure of the book that returns, called by the handler. -/
theorem run_callBook {α : Type} {procedure : BookProc α} {a : α} {store : Store}
    (h : procedure.run session.server.store = .returned a store) :
    (callBook L procedure).run session =
      .returned a { session with server.store := store } :=
  Proc.run_focus_of_returned h

/-- The two parts of a call of `AddOrder`: the object is made, and handed over. -/
theorem run_addOrder_of_call {s s' : Store} {o : Order} {ts : Trades} {p : Option OrderPointer}
    (h : (call (.addOrder o)).run s = .returned (.added ts p) s') :
    (addOrder s.nextOrder).run (s.alloc o) = .returned (ts, p) s' := by
  have hmake : (makeShared o).run s = .returned s.nextOrder (s.alloc o) := rfl
  rw [call, Proc.run_bind, hmake, Outcome.bind_returned, Proc.run_bind,
    Outcome.bind_eq_returned] at h
  obtain ⟨⟨ts', p'⟩, s'', hadd, hpure⟩ := h
  cases hpure
  exact hadd

/-- A cancel in a run of calls is `CancelOrder`. -/
theorem run_cancelOrder_of_call {s s' : Store} {id : OrderId} {success : Bool}
    (h : (call (.cancelOrder id)).run s = .returned (.cancelled success) s') :
    (Book.cancelOrder id).run s = .returned success s' := by
  rw [call, Proc.run_bind, Outcome.bind_eq_returned] at h
  obtain ⟨success', s'', hcancel, hpure⟩ := h
  cases hpure
  exact hcancel

/-- A field that is there and can be read is read. -/
theorem run_fieldAt {α : Type} {get : Json → Except String α} {req field : Json} {key : String}
    {a : α} (hfield : req.field? key = some field) (hget : get field = .ok a) :
    (fieldAt L get req key).run session = .returned a session := by
  simp [fieldAt, Libraries.at_, hfield, ofJson, hget]

/-- Conversions one after the other are one conversion. -/
theorem ofJson_bind {α β : Type} (x : Except String α) (f : α → Except String β) :
    ofJson (x >>= f) = ofJson x >>= fun a => ofJson (f a) := by
  cases x <;> rfl

/-- What the fields of an `ADD_ORDER` are converted to. -/
def decoded (req : Json) : Except String Order := do
  let side ← L.at_ req "side" >>= L.getString
  let price ← L.at_ req "price" >>= L.getUInt32
  let quantity ← L.at_ req "quantity" >>= L.getUInt32
  let brokerOrderId ← L.at_ req "broker_order_id" >>= L.getUInt64
  let type ← L.at_ req "type" >>= L.getString
  pure (Order.new (orderTypeOf type) brokerOrderId (sideOf side) price quantity)

/-- The decoder runs as `decoded`. -/
theorem decodeOrder_eq (req : Json) : decodeOrder L req = ofJson (decoded L req) := by
  unfold decodeOrder decoded fieldAt
  simp only [ofJson_bind]
  rfl

/-- Conversions one after the other give a value if each does. -/
theorem bind_eq_ok {α β : Type} {x : Except String α} {f : α → Except String β} {b : β} :
    (x >>= f) = .ok b ↔ ∃ a, x = .ok a ∧ f a = .ok b := by
  cases x with
  | error text => simp [bind, Except.bind]
  | ok a => simp [bind, Except.bind]

/-- The order that the fields of an `ADD_ORDER` are converted to. -/
theorem decoded_eq_ok {req : Json} {o : Order} (h : decoded L req = .ok o) :
    ∃ side price quantity id type,
      (L.at_ req "side" >>= L.getString) = .ok side ∧
      (L.at_ req "price" >>= L.getUInt32) = .ok price ∧
      (L.at_ req "quantity" >>= L.getUInt32) = .ok quantity ∧
      (L.at_ req "broker_order_id" >>= L.getUInt64) = .ok id ∧
      (L.at_ req "type" >>= L.getString) = .ok type ∧
      o = Order.new (orderTypeOf type) id (sideOf side) price quantity := by
  unfold decoded at h
  simp only [bind_eq_ok] at h
  obtain ⟨side, hside, price, hprice, quantity, hquantity, id, hid, type, htype, ho⟩ := h
  refine ⟨side, price, quantity, id, type, ?_, ?_, ?_, ?_, ?_, (Except.ok.inj ho).symm⟩
  · exact bind_eq_ok.mpr hside
  · exact bind_eq_ok.mpr hprice
  · exact bind_eq_ok.mpr hquantity
  · exact bind_eq_ok.mpr hid
  · exact bind_eq_ok.mpr htype

/-- `at` finds exactly the fields that are there. -/
theorem at_eq_ok {req field : Json} {key : String} :
    L.at_ req key = .ok field ↔ req.field? key = some field := by
  unfold Libraries.at_
  cases req.field? key <;> simp

/-- `value` reads a field that is there. -/
theorem value_of_field? {α : Type} {get : Json → Except String α} {req field : Json}
    {key : String} (h : req.field? key = some field) (fallback : α) :
    L.value get req key fallback = get field := by
  cases req with
  | object fields =>
      unfold Json.field? at h
      unfold Libraries.value
      dsimp only at h ⊢
      rw [h]
  | null | boolean | integer | float | string | array => cases h

/-- Echoing the ids, where both can be read. -/
theorem run_echoIds_of_ok {req : Json} {clientOrderId : String} {brokerOrderId : ℤ}
    (hclient : L.value L.getString req "client_order_id" "N/A" = .ok clientOrderId)
    (hbroker : L.value L.getInt req "broker_order_id" 0 = .ok brokerOrderId) :
    (echoIds L req).run session = .returned () { session with
      resJson := { session.resJson with
        clientOrderId := some clientOrderId,
        brokerOrderId := some brokerOrderId } } := by
  simp only [echoIds, hclient, hbroker, ofJson, Proc.run_bind, Proc.run_pure,
    Outcome.bind_returned, setReply, Proc.run_modify]

end procedures

/-! ## The log line -/

/-- What the log line reads is there, or has a default: the request is an object, and the two texts
that the log line shows are strings if they are there. -/
def Json.loggable : Json → Bool
  | .object fields => ["command", "client_order_id"].all fun key =>
      (fields.lookup key).all Json.isString
  | _ => false

section log

variable (L : JsonLibrary) {req : Json} (session : Session)

/-- `value` reads a string, or gives the default, unless something else is there. -/
theorem value_getString_of_isString {fields : List (String × Json)} {key : String}
    (h : (fields.lookup key).all Json.isString = true) (fallback : String) :
    ∃ s, L.value L.getString (.object fields) key fallback = .ok s := by
  unfold Libraries.value
  cases hfield : fields.lookup key with
  | none => exact ⟨fallback, by simp [hfield]⟩
  | some v =>
      rw [hfield, Option.all_some, Json.isString_iff] at h
      obtain ⟨s, rfl⟩ := h
      exact ⟨s, by simp [hfield, L.getString_string]⟩

/-- Where `value` has read a string, nothing else is there. -/
theorem isString_of_value_getString {fields : List (String × Json)} {key fallback s : String}
    (h : L.value L.getString (.object fields) key fallback = .ok s) :
    (fields.lookup key).all Json.isString = true := by
  unfold Libraries.value at h
  cases hfield : fields.lookup key with
  | none => rfl
  | some v =>
      simp only [hfield] at h
      rw [Option.all_some, Json.isString_iff]
      exact ⟨s, L.getString_ok v s h⟩

/-- A text that is not the default has been read. -/
theorem field?_of_value {key fallback s : String} (h : L.value L.getString req key fallback = .ok s)
    (hne : s ≠ fallback) : req.field? key = some (.string s) := by
  cases req with
  | object fields =>
      unfold Libraries.value at h
      unfold Json.field?
      cases hfield : fields.lookup key with
      | none =>
          simp only [hfield] at h
          exact absurd (Except.ok.inj h).symm hne
      | some v =>
          simp only [hfield] at h
          obtain rfl := L.getString_ok v s h
          exact hfield
  | null | boolean | integer | float | string | array => cases h

/-- A request that can be logged is logged. -/
theorem run_logRequest_of_loggable (h : req.loggable = true) :
    ∃ command clientOrderId,
      L.value L.getString req "command" "" = .ok command ∧
      L.value L.getString req "client_order_id" "N/A" = .ok clientOrderId ∧
      (logRequest L.toLibraries req).run session = .returned (command, clientOrderId) session := by
  cases req with
  | object fields =>
      simp only [Json.loggable, List.all_cons, List.all_nil, Bool.and_true,
        Bool.and_eq_true] at h
      obtain ⟨command, hcommand⟩ := value_getString_of_isString L h.1 ""
      obtain ⟨client, hclient⟩ := value_getString_of_isString L h.2 "N/A"
      refine ⟨command, client, hcommand, hclient, ?_⟩
      unfold logRequest
      simp only [hcommand, hclient, ofJson, Proc.run_bind, Proc.run_pure, Outcome.bind_returned]
      cases hid : (Json.object fields).field? "broker_order_id" with
      | none => rfl
      | some id =>
          dsimp only
          split_ifs with hnumber
          · obtain ⟨n, hn⟩ := (L.getUInt64_ok_iff id).mpr hnumber
            rw [hn]
            rfl
          · rfl
  | null | boolean | integer | float | string | array => cases h

/-- Another request makes the log line throw. -/
theorem run_logRequest_of_not_loggable (h : req.loggable = false) :
    ∃ text, (logRequest L.toLibraries req).run session = .raised (.json text) session := by
  cases req with
  | object fields =>
      unfold logRequest
      cases hcommand : L.value L.getString (.object fields) "command" "" with
      | error text => exact ⟨text, by simp [ofJson]⟩
      | ok command =>
          cases hclient : L.value L.getString (.object fields) "client_order_id" "N/A" with
          | error text => exact ⟨text, by simp [ofJson]⟩
          | ok client =>
              have hboth := And.intro (isString_of_value_getString L hcommand)
                (isString_of_value_getString L hclient)
              rw [Json.loggable, List.all_cons, List.all_cons, hboth.1, hboth.2] at h
              cases h
  | null | boolean | integer | float | string | array => exact ⟨L.valueTypeError, rfl⟩

/-- Without a log line there is no answer. -/
theorem run_handleRequest_of_not_loggable (h : req.loggable = false) :
    ∃ text, (handleRequest L.toLibraries req).run session = .raised (.json text) session := by
  obtain ⟨text, hlog⟩ := run_logRequest_of_not_loggable L session h
  exact ⟨text, by simp [handleRequest, hlog]⟩

end log

/-! ## What is served -/

/-- What the handler can do with a request that has been logged: the reply and the new state. -/
inductive Served (L : JsonLibrary) (req : Json) (command : String) (server : ServerState) :
    Reply → ServerState → Prop
  /-- An order without one of its fields. -/
  | missingField (reply : Reply) : command = "ADD_ORDER" →
      requiredFields.all req.contains = false → reply.status = some .ERROR →
      Served L req command server reply server
  /-- An order with a field that is not converted. -/
  | badField (text : String) (reply : Reply) : command = "ADD_ORDER" →
      decoded L.toLibraries req = .error text → reply.status = some .ERROR →
      Served L req command server reply server
  /-- An order with a live id. -/
  | duplicate (o : Order) (reply : Reply) : command = "ADD_ORDER" →
      requiredFields.all req.contains = true → decoded L.toLibraries req = .ok o →
      o.orderId ∈ server.store.book.ordersMap → reply.status = some .ERROR →
      Served L req command server reply { server with store := server.store.alloc o }
  /-- An order that the book has handed back. -/
  | booked (o : Order) (ts : Trades) (p : OrderPointer) (store : Store) (clientOrderId : String)
      (reply : Reply) : command = "ADD_ORDER" →
      requiredFields.all req.contains = true → decoded L.toLibraries req = .ok o →
      CallStep server.store (.addOrder o) (.added ts (some p)) store →
      reply.status = some .OK → reply.trades = some (fillInfos ts) →
      reply.orderFinalStatusInBook = some (finalStatusInBook (some (store.heap p))) →
      Served L req command server reply
        ⟨store, server.bookings ++ [⟨clientOrderId, o.toOrderTerms, ts⟩]⟩
  /-- A cancel of a live order. -/
  | cancelled (id : OrderId) (store : Store) (reply : Reply) : command = "CANCEL_ORDER" →
      (∃ field, req.field? "broker_order_id" = some field ∧ L.getUInt64 field = .ok id) →
      CallStep server.store (.cancelOrder id) (.cancelled true) store →
      reply.status = some .OK → Served L req command server reply { server with store := store }
  /-- Another request that fails. -/
  | failed (reply : Reply) : command ≠ "ADD_ORDER" → reply.status = some .ERROR →
      Served L req command server reply server
  /-- A request for information. -/
  | informed (reply : Reply) : command ≠ "ADD_ORDER" → command ≠ "CANCEL_ORDER" →
      reply.status = some .OK → Served L req command server reply server

section served

variable (L : JsonLibrary) {req : Json} {command clientOrderId : String} {server : ServerState}

/-- The book is in order after a request. -/
theorem Served.invariant {reply : Reply} {server' : ServerState} {L : JsonLibrary}
    (h : Served L req command server reply server') (hi : Invariant server.store) :
    Invariant server'.store := by
  cases h with
  | missingField | badField | failed | informed => exact hi
  | duplicate o => exact hi.alloc o
  | booked _ _ _ _ _ _ _ _ _ hcall => exact hcall.invariant hi
  | cancelled _ _ _ _ _ hcall => exact hcall.invariant hi

/-- The handler either returns with its reply, or an exception has it overwritten. -/
theorem run_tryCatch_dispatch {session session' : Session} {e : Exception}
    (h : (dispatch L.toLibraries req command clientOrderId).run session = .raised e session') :
    ∃ reply, reply.status = some .ERROR ∧
      (Proc.tryCatch (dispatch L.toLibraries req command clientOrderId) catchException).run session =
        .returned () { session' with resJson := reply } := by
  unfold Proc.tryCatch
  dsimp only
  rw [h]
  cases e with
  | json text => exact ⟨_, rfl, rfl⟩
  | std text => exact ⟨_, rfl, rfl⟩

/-- What has been decoded as an order id is echoed. -/
theorem value_getInt_of_decoded {o : Order} (h : decoded L.toLibraries req = .ok o) :
    ∃ n, L.value L.getInt req "broker_order_id" 0 = .ok n := by
  obtain ⟨-, -, -, id, -, -, -, -, hid, -, -⟩ := decoded_eq_ok L.toLibraries h
  obtain ⟨field, hat, hget⟩ := bind_eq_ok.mp hid
  have hfield := (at_eq_ok L.toLibraries).mp hat
  rw [value_of_field? L.toLibraries hfield]
  exact L.getInt_number field ((L.getUInt64_ok_iff field).mp ⟨id, hget⟩)

/-- An `ADD_ORDER` that can be decoded gets to the book, and then to its answer. -/
theorem run_addOrderCommand_of_call {L : Libraries} {o : Order} {store : Store} {ts : Trades}
    {submitted : Option OrderPointer} (hrequired : requiredFields.all req.contains = true)
    (hdecoded : decoded L req = .ok o)
    (hcall : (call (.addOrder o)).run server.store = .returned (.added ts submitted) store) :
    (addOrderCommand L req clientOrderId).run ⟨server, {}⟩ =
      (do
        recordBooking clientOrderId o ts submitted
        writeAnswer L ts submitted
        echoIds L req).run ⟨{ server with store := store }, {}⟩ := by
  have hmake : (makeShared o).run server.store =
      .returned server.store.nextOrder (server.store.alloc o) := rfl
  have hdecode : ∀ session, (decodeOrder L req).run session = .returned o session := by
    intro session
    rw [decodeOrder_eq, hdecoded]
    rfl
  unfold addOrderCommand
  rw [hrequired, if_neg (show ¬true = false by decide), Proc.run_bind, hdecode,
    Outcome.bind_returned, Proc.run_bind, run_callBook L hmake, Outcome.bind_returned,
    Proc.run_bind, run_callBook L (run_addOrder_of_call hcall), Outcome.bind_returned]

/-- What an `ADD_ORDER` without a live field to read gives. -/
theorem run_addOrderCommand_of_refused {L : Libraries} {o : Order} {store : Store}
    {brokerOrderId : ℤ} (hrequired : requiredFields.all req.contains = true)
    (hdecoded : decoded L req = .ok o)
    (hclient : L.value L.getString req "client_order_id" "N/A" = .ok clientOrderId)
    (hbroker : L.value L.getInt req "broker_order_id" 0 = .ok brokerOrderId)
    (hcall : (call (.addOrder o)).run server.store = .returned (.added [] none) store) :
    (addOrderCommand L req clientOrderId).run ⟨server, {}⟩ = .returned ()
      ⟨{ server with store := store }, {
        status := some .ERROR
        message := some "Order rejected by book (e.g., duplicate Order ID or invalid params)."
        clientOrderId := some clientOrderId
        brokerOrderId := some brokerOrderId }⟩ := by
  rw [run_addOrderCommand_of_call hrequired hdecoded hcall]
  simp only [Proc.run_bind, recordBooking, Option.isSome_none, Bool.false_eq_true, if_false,
    Proc.run_pure, Outcome.bind_returned, writeAnswer, true_and, if_true, setReply,
    Proc.run_modify, run_echoIds_of_ok L hclient hbroker]

/-- An `ADD_ORDER` that hands the order back. -/
theorem run_addOrderCommand_of_taken {L : Libraries} {o : Order} {store : Store} {ts : Trades}
    {p : OrderPointer} {brokerOrderId : ℤ} (hrequired : requiredFields.all req.contains = true)
    (hdecoded : decoded L req = .ok o)
    (hclient : L.value L.getString req "client_order_id" "N/A" = .ok clientOrderId)
    (hbroker : L.value L.getInt req "broker_order_id" 0 = .ok brokerOrderId)
    (hcall : (call (.addOrder o)).run server.store = .returned (.added ts (some p)) store) :
    (addOrderCommand L req clientOrderId).run ⟨server, {}⟩ = .returned ()
      ⟨⟨store, server.bookings ++ [⟨clientOrderId, o.toOrderTerms, ts⟩]⟩, {
        status := some .OK
        trades := some (fillInfos ts)
        orderFinalStatusInBook := some (finalStatusInBook (some (store.heap p)))
        clientOrderId := some clientOrderId
        brokerOrderId := some brokerOrderId }⟩ := by
  have hderef : (derefOption (some p)).run store = .returned (some (store.heap p)) store := rfl
  rw [run_addOrderCommand_of_call hrequired hdecoded hcall]
  simp only [Proc.run_bind, recordBooking, Option.isSome_some, if_true, record, Proc.run_modify,
    Outcome.bind_returned, writeAnswer, reduceCtorEq, false_and, if_false]
  rw [run_callBook L hderef]
  simp only [Outcome.bind_returned, setReply, Proc.run_modify, run_echoIds_of_ok L hclient hbroker]

/-- **`ADD_ORDER`**: it throws before it gets to the book, or it has an answer. -/
theorem run_addOrderCommand (hi : Invariant server.store)
    (hclient : L.value L.getString req "client_order_id" "N/A" = .ok clientOrderId) :
    (∃ e, (addOrderCommand L.toLibraries req clientOrderId).run ⟨server, {}⟩ =
      .raised e ⟨server, {}⟩ ∧ (requiredFields.all req.contains = false ∨
        ∃ text, decoded L.toLibraries req = .error text)) ∨
    (∃ reply server', (addOrderCommand L.toLibraries req clientOrderId).run ⟨server, {}⟩ =
      .returned () ⟨server', reply⟩ ∧ Served L req "ADD_ORDER" server reply server') := by
  cases hrequired : requiredFields.all req.contains with
  | false =>
      refine Or.inl ⟨.std "Missing one or more required fields for ADD_ORDER.", ?_, Or.inl rfl⟩
      simp [addOrderCommand, hrequired]
  | true =>
      cases hdecoded : decoded L.toLibraries req with
      | error text =>
          refine Or.inl ⟨.json text, ?_, Or.inr ⟨text, rfl⟩⟩
          simp [addOrderCommand, hrequired, decodeOrder_eq, hdecoded, ofJson]
      | ok o =>
          right
          obtain ⟨n, hbroker⟩ := value_getInt_of_decoded L hdecoded
          obtain ⟨a, store, hcall, hstep⟩ := call_steps hi (.addOrder o)
          have htaken : ∀ ts p, a = .added ts (some p) →
              ∃ reply server', (addOrderCommand L.toLibraries req clientOrderId).run
                ⟨server, {}⟩ = .returned () ⟨server', reply⟩ ∧
                Served L req "ADD_ORDER" server reply server' := by
            rintro ts p rfl
            exact ⟨_, _, run_addOrderCommand_of_taken hrequired hdecoded hclient hbroker hcall,
              .booked o ts p store _ _ rfl hrequired hdecoded hstep rfl rfl rfl⟩
          cases hstep with
          | refused _ hid =>
              exact ⟨_, _, run_addOrderCommand_of_refused hrequired hdecoded hclient hbroker hcall,
                .duplicate o _ rfl hrequired hdecoded hid rfl⟩
          | turnedAway => exact htaken _ _ rfl
          | accepted => exact htaken _ _ rfl

/-- **`CANCEL_ORDER`.** -/
theorem run_cancelOrderCommand (req : Json) (hi : Invariant server.store) :
    (∃ e, (cancelOrderCommand L.toLibraries req).run ⟨server, {}⟩ = .raised e ⟨server, {}⟩) ∨
    (∃ reply server', (cancelOrderCommand L.toLibraries req).run ⟨server, {}⟩ =
      .returned () ⟨server', reply⟩ ∧ Served L req "CANCEL_ORDER" server reply server') := by
  cases hfield : req.field? "broker_order_id" with
  | none =>
      refine Or.inl ⟨.std "Missing 'broker_order_id' for CANCEL_ORDER.", ?_⟩
      simp [cancelOrderCommand, Json.contains, hfield]
  | some field =>
      cases hget : L.getUInt64 field with
      | error text =>
          refine Or.inl ⟨.json text, ?_⟩
          simp [cancelOrderCommand, Json.contains, hfield, fieldAt, Libraries.at_, ofJson, hget]
      | ok id =>
          right
          obtain ⟨a, store, hcall, hstep⟩ := call_steps hi (.cancelOrder id)
          have hrun : ∀ success, a = .cancelled success →
              ∃ reply, reply.status = some (if success then .OK else .ERROR) ∧
              (cancelOrderCommand L.toLibraries req).run ⟨server, {}⟩ =
                .returned () ⟨{ server with store := store }, reply⟩ := by
            rintro success rfl
            unfold cancelOrderCommand
            rw [Json.contains, hfield, Option.isSome_some, if_neg (show ¬true = false by decide),
              Proc.run_bind, run_fieldAt _ hfield hget, Outcome.bind_returned, Proc.run_bind,
              run_callBook _ (run_cancelOrder_of_call hcall), Outcome.bind_returned]
            cases success with
            | true => exact ⟨_, rfl, rfl⟩
            | false => exact ⟨_, rfl, rfl⟩
          have hid := And.intro hfield hget
          cases hstep with
          | notFound =>
              obtain ⟨reply, hstatus, hreply⟩ := hrun false rfl
              exact ⟨reply, _, hreply, .failed reply (by simp) hstatus⟩
          | cancelled n _ hn hremoved =>
              obtain ⟨reply, hstatus, hreply⟩ := hrun true rfl
              exact ⟨reply, _, hreply, .cancelled (server.store.idAt n) store reply rfl
                ⟨field, hid⟩ (.cancelled n store hn hremoved) hstatus⟩

/-- **A request that can be logged is served.** -/
theorem serve_served (hi : Invariant server.store) (hlog : req.loggable = true) :
    ∃ command reply server', L.value L.getString req "command" "" = .ok command ∧
      serve L.toLibraries req server = some (reply, server') ∧
      Served L req command server reply server' := by
  obtain ⟨command, client, hcommand, hclient, hrun⟩ := run_logRequest_of_loggable L ⟨server, {}⟩ hlog
  have hserve : ∀ reply server',
      (Proc.tryCatch (dispatch L.toLibraries req command client) catchException).run
        ⟨server, {}⟩ = .returned () ⟨server', reply⟩ →
      serve L.toLibraries req server = some (reply, server') := by
    intro reply server' htry
    unfold serve handleRequest
    rw [Proc.run_bind, hrun, Outcome.bind_returned, htry]
  have hraised : ∀ e, (dispatch L.toLibraries req command client).run ⟨server, {}⟩ =
      .raised e ⟨server, {}⟩ →
      ∃ reply, reply.status = some .ERROR ∧
        serve L.toLibraries req server = some (reply, server) := by
    intro e h
    obtain ⟨reply, hstatus, htry⟩ := run_tryCatch_dispatch L h
    exact ⟨reply, hstatus, hserve reply server htry⟩
  have hreturned : ∀ reply server', (dispatch L.toLibraries req command client).run ⟨server, {}⟩ =
      .returned () ⟨server', reply⟩ → serve L.toLibraries req server = some (reply, server') := by
    intro reply server' h
    apply hserve
    unfold Proc.tryCatch
    dsimp only
    rw [h]
  unfold dispatch at hraised hreturned
  by_cases hadd : command = "ADD_ORDER"
  · subst hadd
    rw [if_pos rfl] at hraised hreturned
    rcases run_addOrderCommand L hi hclient with ⟨e, he, hwhy⟩ | ⟨reply, server', hret, hserved⟩
    · obtain ⟨reply, hstatus, hsome⟩ := hraised e he
      rcases hwhy with hmissing | ⟨text, htext⟩
      · exact ⟨_, reply, server, hcommand, hsome, .missingField reply rfl hmissing hstatus⟩
      · exact ⟨_, reply, server, hcommand, hsome, .badField text reply rfl htext hstatus⟩
    · exact ⟨_, reply, server', hcommand, hreturned reply server' hret, hserved⟩
  rw [if_neg hadd] at hraised hreturned
  by_cases hcancel : command = "CANCEL_ORDER"
  · subst hcancel
    rw [if_pos rfl] at hraised hreturned
    rcases run_cancelOrderCommand L req hi with ⟨e, he⟩ | ⟨reply, server', hret, hserved⟩
    · obtain ⟨reply, hstatus, hsome⟩ := hraised e he
      exact ⟨_, reply, server, hcommand, hsome, .failed reply hadd hstatus⟩
    · exact ⟨_, reply, server', hcommand, hreturned reply server' hret, hserved⟩
  rw [if_neg hcancel] at hreturned
  by_cases hinfo : command = "GET_BOOK_INFO"
  · rw [if_pos hinfo] at hreturned
    exact ⟨command, _, server, hcommand, hreturned _ _ rfl, .informed _ hadd hcancel rfl⟩
  rw [if_neg hinfo] at hreturned
  by_cases hping : command = "PING"
  · rw [if_pos hping] at hreturned
    exact ⟨command, _, server, hcommand, hreturned _ _ rfl, .informed _ hadd hcancel rfl⟩
  · rw [if_neg hping] at hreturned
    exact ⟨command, _, server, hcommand, hreturned _ _ rfl, .failed _ hadd rfl⟩

end served

end FlowManager.Server
