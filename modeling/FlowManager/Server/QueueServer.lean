import FlowManager.Book.Depth
import FlowManager.Lib.Transducer
import FlowManager.Server.Decoder

/-!
# The server over queues

What the server is for, said without its memory. A request asks something of the book, and what it
asks can be told from its bytes alone (`asked`). The book is two queues of orders, and each thing
that is asked has an answer that the queues determine (`Asked.answer`).

`server_refines_queues` is the refinement, for whole runs of `main`: the replies that are sent are
the answers of this machine, field by field, and the server ends at the first request that asks for
what it does not survive. So whatever two servers have been through, if they have the same queues
nobody can tell them apart.
-/

namespace FlowManager.Server

open FlowManager.Lib FlowManager.Lib.PriceTime FlowManager.Book

/-! ## What is asked -/

/-- What a request asks of the book. -/
inductive Asked where
  /-- To take an order, and to echo the ids of the request. -/
  | add (o : Order) (clientOrderId : String) (brokerOrderId : Option ℤ)
  /-- To take an order out. -/
  | cancel (id : OrderId)
  /-- To show the levels. -/
  | info
  /-- Nothing: the reply does not depend on the book. -/
  | nothing (reply : Reply)

/-- The reply to a request that has thrown. -/
def excuse : Exception → Reply
  | .json text =>
      { status := some .ERROR
        message := some ("Invalid or missing field in JSON request: " ++ text) }
  | .std text =>
      { status := some .ERROR, message := some ("Internal server error: " ++ text) }

section asked

variable (L : JsonLibrary)

/-- What an `ADD_ORDER` asks. -/
def askedAdd (req : Json) (clientOrderId : String) : Asked :=
  if requiredFields.all req.contains = false then
    .nothing (excuse (.std "Missing one or more required fields for ADD_ORDER."))
  else
    match decoded L.toLibraries req with
    | .ok o => .add o clientOrderId (L.value L.getInt req "broker_order_id" 0).toOption
    | .error text => .nothing (excuse (.json text))

/-- What a `CANCEL_ORDER` asks. -/
def askedCancel (req : Json) : Asked :=
  match req.field? "broker_order_id" with
  | none => .nothing (excuse (.std "Missing 'broker_order_id' for CANCEL_ORDER."))
  | some field =>
      match L.getUInt64 field with
      | .ok id => .cancel id
      | .error text => .nothing (excuse (.json text))

/-- What a command asks. -/
def askedBy (req : Json) (command clientOrderId : String) : Asked :=
  if command = "ADD_ORDER" then askedAdd L req clientOrderId
  else if command = "CANCEL_ORDER" then askedCancel L req
  else if command = "GET_BOOK_INFO" then .info
  else if command = "PING" then .nothing { status := some .OK, reply := some "PONG" }
  else .nothing { status := some .ERROR, message := some ("Unknown command: " ++ command) }

/-- What the bytes of a request ask, if the server survives them. -/
def asked (payload : ByteArray) : Option Asked :=
  if payload.size = 0 then
    some (.nothing
      { status := some .ERROR, message := some "Received empty request from client." })
  else
    match L.parse payload with
    | .ok req => do
        let command ← (L.value L.getString req "command" "").toOption
        let clientOrderId ← (L.value L.getString req "client_order_id" "N/A").toOption
        pure (askedBy L req command clientOrderId)
    | .error (.parseError what) => do
        let text ← String.fromUTF8? what
        pure (.nothing
          { status := some .ERROR, message := some ("Invalid JSON request: " ++ text) })
    | .error (.other _) => none

end asked

/-! ## What is answered -/

/-- Whether an id is unused is decided. -/
instance (q : Sides OrderTerms) (id : OrderId) : Decidable (Unused q id) :=
  decidable_of_iff (∀ r ∈ restingOrders q, r.terms.orderId ≠ id)
    ⟨fun h _ r hr => h r (mem_restingOrders_iff_queueOf.mpr ⟨_, hr⟩), fun h r hr =>
      let ⟨side, hside⟩ := mem_restingOrders_iff_queueOf.mp hr
      h side r hside⟩

/-- The two legs of a fill, as they are reported. -/
def legsOfFill (f : Fill OrderTerms) : List FillInfo :=
  [⟨f.bid.orderId.toNat, f.bid.price.toNat, f.qty, .Buy⟩,
    ⟨f.ask.orderId.toNat, f.ask.price.toNat, f.qty, .Sell⟩]

/-- The status of an order that has `left` open. -/
def statusOfLeft (o : OrderTerms) (left : ℕ) : BookStatus :=
  if left = 0 then .FILLED
  else if o.orderType = .FillAndKill then .REJECTED_BY_BOOK
  else .WORKING

/-- The levels of a queue, as they are reported: quantities are modulo `2 ^ 32`. -/
def levelsOfQueue (rs : List (Resting OrderTerms)) : List LevelReply :=
  (aggregate OrderTerms.price rs).map fun l => ⟨l.terms.toNat, (l.qty % 2 ^ 32 : ℕ)⟩

/-- The answer of the queues, and the queues after it. -/
def Asked.answer : Asked → Sides OrderTerms → Reply × Sides OrderTerms
  | .add o clientOrderId brokerOrderId, q =>
      if Unused q o.orderId then
        let placed := acceptOrder o.toOrderTerms o.remainingQuantity.toNat q
        ({ status := some .OK
           trades := some (placed.fills.flatMap legsOfFill)
           orderFinalStatusInBook := some (statusOfLeft o.toOrderTerms (placed.left.getD 0))
           clientOrderId := some clientOrderId
           brokerOrderId := brokerOrderId }, placed.sides)
      else
        ({ status := some .ERROR
           message := some "Order rejected by book (e.g., duplicate Order ID or invalid params)."
           clientOrderId := some clientOrderId
           brokerOrderId := brokerOrderId }, q)
  | .cancel id, q =>
      if Unused q id then
        ({ status := some .ERROR
           message := some "Cancel failed (e.g. order not found or already completed)"
           finalStatus := some .CANCEL_REJECTED
           brokerOrderId := some id.toNat }, q)
      else
        ({ status := some .OK, finalStatus := some .CANCELLED, brokerOrderId := some id.toNat },
          withdraw id q)
  | .info, q =>
      ({ status := some .OK
         bids := some (levelsOfQueue q.bids)
         asks := some (levelsOfQueue q.asks) }, q)
  | .nothing reply, q => (reply, q)

/-- The answer to the bytes of a request; a request that ends the server has none. -/
def answerTo (L : JsonLibrary) (payload : ByteArray) (q : Sides OrderTerms) :
    Reply × Sides OrderTerms :=
  match asked L payload with
  | some a => a.answer q
  | none => ({}, q)

/-- The server over queues. -/
def queueServer (L : JsonLibrary) : Transducer ByteArray (Sides OrderTerms) Reply := ⟨answerTo L⟩

/-- The server over queues answers what is asked. -/
theorem queueServer_step_of_asked {L : JsonLibrary} {payload : ByteArray} {a : Asked}
    (h : asked L payload = some a) (q : Sides OrderTerms) :
    (queueServer L).step payload q = a.answer q := by
  unfold queueServer answerTo
  dsimp only
  rw [h]

/-! ## One request -/

section levels

variable {r : Price → Price → Prop} [IsStrictTotalOrder Price r] {heap : OrderPointer → Order}
  {side : Side} {levels : OrderedMap Price OrderPointers r}

/-- The levels of the book are the levels of its queue. -/
theorem levelReply_levelInfos (h : SideOk heap side levels) (hne : NoEmptyLevel levels) :
    (levelInfos heap levels).map levelReply = levelsOfQueue (queueIn heap levels) := by
  have hall : levels.entries.filter (fun e => !e.2.isEmpty) = levels.entries := by
    apply List.filter_eq_self.mpr
    intro e he
    simpa using hne e he
  unfold levelsOfQueue queueIn OrderedMap.flat
  rw [aggregate_entries levels.sorted h.keyed hne]
  unfold levelInfos
  rw [hall, List.map_map, List.map_map]
  apply List.map_congr_left
  rintro ⟨p, ns⟩ he
  have hlevel := createLevelInfoFromOrders_eq h he
  rw [openAt_queueIn h he] at hlevel
  simp only [Function.comp_apply, hlevel, levelReply, UInt32.toNat_ofNat']

end levels

section served

variable {L : JsonLibrary} {req : Json} {server : ServerState}

/-- Recorded trades are reported as the fills say. -/
theorem fillInfos_of_records {ts : Trades} {fs : List (Fill OrderTerms)}
    (h : List.Forall₂ Trade.Records ts fs) : fillInfos ts = fs.flatMap legsOfFill := by
  induction h with
  | nil => rfl
  | cons hrec _ ih =>
      obtain ⟨q, rfl, hq⟩ := hrec
      unfold fillInfos at ih ⊢
      rw [List.flatMap_cons, List.flatMap_cons, ih]
      unfold legsOfFill
      rw [← hq]
      rfl

/-- The status in the reply is that of what is left. -/
theorem finalStatusInBook_eq (o : Order) : finalStatusInBook (some o) =
    statusOfLeft o.toOrderTerms o.remainingQuantity.toNat := by
  unfold finalStatusInBook statusOfLeft
  dsimp only
  simp only [Order.isFilled_iff]

/-- A request with a command and a client id is logged. -/
theorem run_logRequest_of_values {command clientOrderId : String} (session : Session)
    (hcommand : L.value L.getString req "command" "" = .ok command)
    (hclient : L.value L.getString req "client_order_id" "N/A" = .ok clientOrderId) :
    (logRequest L.toLibraries req).run session = .returned (command, clientOrderId) session := by
  cases req with
  | object fields =>
      have hlog : (Json.object fields).loggable = true := by
        unfold Json.loggable
        dsimp only
        rw [List.all_cons, List.all_cons, isString_of_value_getString L hcommand,
          isString_of_value_getString L hclient]
        rfl
      obtain ⟨command', client', hcommand', hclient', hrun⟩ :=
        run_logRequest_of_loggable L session hlog
      rw [hcommand] at hcommand'
      rw [hclient] at hclient'
      cases hcommand'
      cases hclient'
      exact hrun
  | null | boolean | integer | float | string | array => cases hcommand

/-- What the handler returns is the reply, and what it throws is excused. -/
theorem serve_of_dispatch (server : ServerState) {command clientOrderId : String}
    (hcommand : L.value L.getString req "command" "" = .ok command)
    (hclient : L.value L.getString req "client_order_id" "N/A" = .ok clientOrderId) :
    (∀ reply server', (dispatch L.toLibraries req command clientOrderId).run ⟨server, {}⟩ =
        .returned () ⟨server', reply⟩ → serve L.toLibraries req server = some (reply, server')) ∧
      ∀ e, (dispatch L.toLibraries req command clientOrderId).run ⟨server, {}⟩ =
        .raised e ⟨server, {}⟩ → serve L.toLibraries req server = some (excuse e, server) := by
  have hlog := run_logRequest_of_values ⟨server, {}⟩ hcommand hclient
  constructor
  · intro reply server' h
    unfold serve handleRequest Proc.tryCatch
    rw [Proc.run_bind, hlog, Outcome.bind_returned]
    dsimp only
    rw [h]
  · intro e h
    unfold serve handleRequest Proc.tryCatch
    rw [Proc.run_bind, hlog, Outcome.bind_returned]
    dsimp only
    rw [h]
    cases e <;> rfl

/-- The server answers what is asked as the queues do. -/
def Answers (L : JsonLibrary) (req : Json) (server : ServerState) (a : Asked) : Prop :=
  ∃ server', serve L.toLibraries req server = some ((a.answer server.store.sides).1, server') ∧
    server'.store.sides = (a.answer server.store.sides).2 ∧ Invariant server'.store

/-- A reply that does not depend on the book. -/
theorem Answers.of_reply {reply : Reply} (hi : Invariant server.store)
    (h : serve L.toLibraries req server = some (reply, server)) :
    Answers L req server (.nothing reply) :=
  ⟨server, h, rfl, hi⟩

/-- **`ADD_ORDER` is answered as the queues do.** -/
theorem answers_askedAdd {clientOrderId : String} (hi : Invariant server.store)
    (hcommand : L.value L.getString req "command" "" = .ok "ADD_ORDER")
    (hclient : L.value L.getString req "client_order_id" "N/A" = .ok clientOrderId) :
    Answers L req server (askedAdd L req clientOrderId) := by
  obtain ⟨hreturned, hraised⟩ := serve_of_dispatch server hcommand hclient
  unfold dispatch at hreturned hraised
  rw [if_pos rfl] at hreturned hraised
  unfold askedAdd
  cases hrequired : requiredFields.all req.contains with
  | false =>
      rw [if_pos rfl]
      exact .of_reply hi (hraised _ (by simp [addOrderCommand, hrequired]))
  | true =>
      rw [if_neg (by decide)]
      cases hdecoded : decoded L.toLibraries req with
      | error text =>
          refine .of_reply hi (hraised (.json text) ?_)
          simp [addOrderCommand, hrequired, decodeOrder_eq, hdecoded, ofJson]
      | ok o =>
          obtain ⟨n, hbroker⟩ := value_getInt_of_decoded L hdecoded
          unfold Answers Asked.answer
          dsimp only
          rw [hbroker]
          split_ifs with hunused
          · obtain ⟨ts, p, store, hcall, hi', hhandled⟩ := call_addOrder hi o hunused
            have hserve := hreturned _ _
              (run_addOrderCommand_of_taken hrequired hdecoded hclient hbroker hcall)
            rw [fillInfos_of_records hhandled.records, finalStatusInBook_eq, hhandled.terms,
              hhandled.remaining] at hserve
            exact ⟨_, hserve, hhandled.sides, hi'⟩
          · obtain ⟨a, store, hcall, hstep⟩ := call_steps hi (.addOrder o)
            have hmem : o.orderId ∈ server.store.book.ordersMap := by
              by_contra hnot
              exact hunused (hi.toWellIndexed.unused_iff.mpr hnot)
            cases hstep with
            | refused =>
                exact ⟨_, hreturned _ _
                  (run_addOrderCommand_of_refused hrequired hdecoded hclient hbroker hcall),
                  hi.alloc_sides, hi.alloc o⟩
            | turnedAway _ hid => exact absurd hmem hid
            | accepted _ _ _ hid => exact absurd hmem hid

/-- **`CANCEL_ORDER` is answered as the queues do.** -/
theorem answers_askedCancel {clientOrderId : String} (hi : Invariant server.store)
    (hcommand : L.value L.getString req "command" "" = .ok "CANCEL_ORDER")
    (hclient : L.value L.getString req "client_order_id" "N/A" = .ok clientOrderId) :
    Answers L req server (askedCancel L req) := by
  obtain ⟨hreturned, hraised⟩ := serve_of_dispatch server hcommand hclient
  unfold dispatch at hreturned hraised
  rw [if_neg (by decide), if_pos rfl] at hreturned hraised
  unfold askedCancel
  cases hfield : req.field? "broker_order_id" with
  | none =>
      refine .of_reply hi
        (hraised (.std "Missing 'broker_order_id' for CANCEL_ORDER.") ?_)
      simp [cancelOrderCommand, Json.contains, hfield]
  | some field =>
      dsimp only
      cases hget : L.getUInt64 field with
      | error text =>
          refine .of_reply hi (hraised (.json text) ?_)
          simp [cancelOrderCommand, Json.contains, hfield, fieldAt, Libraries.at_, ofJson, hget]
      | ok id =>
          obtain ⟨store, hcall, hi', hsides, -⟩ := call_cancelOrder hi id
          have hrun := run_cancelOrder_of_call hcall
          have hreply := hreturned
            { status := some (if id ∈ server.store.book.ordersMap then .OK else .ERROR)
              message := if id ∈ server.store.book.ordersMap then none
                else some "Cancel failed (e.g. order not found or already completed)"
              finalStatus := some
                (if id ∈ server.store.book.ordersMap then .CANCELLED else .CANCEL_REJECTED)
              brokerOrderId := some id.toNat } { server with store := store } (by
            unfold cancelOrderCommand
            rw [Json.contains, hfield, Option.isSome_some, if_neg (show ¬true = false by decide),
              Proc.run_bind, run_fieldAt _ hfield hget, Outcome.bind_returned, Proc.run_bind,
              run_callBook _ hrun, Outcome.bind_returned]
            by_cases hid : id ∈ server.store.book.ordersMap
            · simp [hid, setReply]
            · simp [hid, setReply])
          unfold Answers Asked.answer
          dsimp only
          split_ifs with hunused
          · have hid := hi.toWellIndexed.unused_iff.mp hunused
            rw [if_neg hid, if_neg hid, if_neg hid] at hreply
            exact ⟨_, hreply, hsides.trans (withdraw_of_unused hunused), hi'⟩
          · have hid : id ∈ server.store.book.ordersMap := by
              by_contra hnot
              exact hunused (hi.toWellIndexed.unused_iff.mpr hnot)
            rw [if_pos hid, if_pos hid, if_pos hid] at hreply
            exact ⟨_, hreply, hsides, hi'⟩

/-- **A request that is logged is answered as the queues do.** -/
theorem answers_askedBy {command clientOrderId : String} (hi : Invariant server.store)
    (hcommand : L.value L.getString req "command" "" = .ok command)
    (hclient : L.value L.getString req "client_order_id" "N/A" = .ok clientOrderId) :
    Answers L req server (askedBy L req command clientOrderId) := by
  unfold askedBy
  split_ifs with hadd hcancel hinfo hping
  · subst hadd
    exact answers_askedAdd hi hcommand hclient
  · subst hcancel
    exact answers_askedCancel hi hcommand hclient
  all_goals
    obtain ⟨hreturned, -⟩ := serve_of_dispatch server hcommand hclient
    unfold dispatch at hreturned
    rw [if_neg hadd, if_neg hcancel] at hreturned
  · rw [if_pos hinfo] at hreturned
    refine ⟨server, (hreturned _ _ rfl).trans ?_, rfl, hi⟩
    rw [levelReply_levelInfos hi.bids hi.bids_nonempty,
      levelReply_levelInfos hi.asks hi.asks_nonempty]
    rfl
  · rw [if_neg hinfo, if_pos hping] at hreturned
    exact ⟨server, hreturned _ _ rfl, rfl, hi⟩
  · rw [if_neg hinfo, if_neg hping] at hreturned
    exact ⟨server, hreturned _ _ rfl, rfl, hi⟩

end served

/-! ## Whole runs -/

/-- `main` on the requests that come in. -/
def serving (L : JsonLibrary) : List ByteArray → MainProc Unit
  | [] => pure ()
  | payload :: payloads => do
      iteration L payload
      serving L payloads

section runs

variable {L : JsonLibrary} {m : MainState} {payload : ByteArray} {payloads : List ByteArray}

/-- A request is logged if what it asks is known. -/
theorem loggable_of_values {req : Json} {command clientOrderId : String}
    (hcommand : L.value L.getString req "command" "" = .ok command)
    (hclient : L.value L.getString req "client_order_id" "N/A" = .ok clientOrderId) :
    req.loggable = true := by
  by_contra hlog
  obtain ⟨text, hraised⟩ := run_logRequest_of_not_loggable L ⟨.init, {}⟩
    (Bool.eq_false_iff.mpr hlog)
  rw [run_logRequest_of_values _ hcommand hclient] at hraised
  cases hraised

/-- **One request**: it is answered as the queues do, or it ends the server. -/
theorem run_iteration_asked (hi : Invariant m.server.store) (payload : ByteArray) :
    (∃ a server', asked L payload = some a ∧ (iteration L payload).run m =
        .returned () ⟨server', m.sent ++ [(a.answer m.server.store.sides).1]⟩ ∧
      server'.store.sides = (a.answer m.server.store.sides).2 ∧ Invariant server'.store) ∨
    (asked L payload = none ∧ ∃ e, (iteration L payload).run m = .raised e m) := by
  unfold asked
  by_cases hsize : payload.size = 0
  · left
    rw [if_pos hsize]
    refine ⟨_, m.server, rfl, ?_, rfl, hi⟩
    unfold iteration
    rw [if_pos hsize]
    rfl
  rw [if_neg hsize]
  cases hparse : L.parse payload with
  | ok req =>
      dsimp only
      cases hlog : req.loggable with
      | true =>
          left
          obtain ⟨command, client, hcommand, hclient, -⟩ :=
            run_logRequest_of_loggable L ⟨m.server, {}⟩ hlog
          obtain ⟨server', hserve, hsides, hi'⟩ := answers_askedBy hi hcommand hclient
          refine ⟨_, server', ?_, ?_, hsides, hi'⟩
          · rw [hcommand, hclient]
            rfl
          · rw [run_iteration_of_parse hsize hparse, run_handle_of_serve hserve]
            rfl
      | false =>
          right
          constructor
          · cases hcommand : L.value L.getString req "command" "" with
            | error _ => rfl
            | ok command =>
                cases hclient : L.value L.getString req "client_order_id" "N/A" with
                | error _ => rfl
                | ok client =>
                    rw [loggable_of_values hcommand hclient] at hlog
                    cases hlog
          · obtain ⟨text, hraised⟩ := run_handleRequest_of_not_loggable L ⟨m.server, {}⟩ hlog
            refine ⟨.json text, ?_⟩
            rw [run_iteration_of_parse hsize hparse]
            unfold handle
            dsimp only
            rw [hraised]
            rfl
  | error failure =>
      unfold iteration
      rw [if_neg hsize, hparse]
      cases failure with
      | other what => exact Or.inr ⟨rfl, _, rfl⟩
      | parseError what =>
          dsimp only
          unfold dump
          cases htext : String.fromUTF8? what with
          | none => exact Or.inr ⟨rfl, _, rfl⟩
          | some text => exact Or.inl ⟨_, m.server, rfl, rfl, rfl, hi⟩

/-- **The requests that the server survives** are answered as the queues do. -/
theorem run_serving (hi : Invariant m.server.store)
    (hasked : ∀ payload ∈ payloads, (asked L payload).isSome) :
    ∃ m', (serving L payloads).run m = .returned () m' ∧
      m'.sent = m.sent ++ ((queueServer L).run payloads m.server.store.sides).1 ∧
      m'.server.store.sides = ((queueServer L).run payloads m.server.store.sides).2 ∧
      Invariant m'.server.store := by
  induction payloads generalizing m with
  | nil => exact ⟨m, rfl, (List.append_nil _).symm, rfl, hi⟩
  | cons payload payloads ih =>
      rcases run_iteration_asked (L := L) hi payload with
        ⟨a, server', ha, hrun, hsides, hi'⟩ | ⟨hnone, -⟩
      · obtain ⟨m', hruns, hsent, hlast, hi''⟩ := ih (m := ⟨server', _⟩) hi'
          fun p hp => hasked p (List.mem_cons_of_mem _ hp)
        have hstep := queueServer_step_of_asked ha m.server.store.sides
        rw [hsides] at hsent hlast
        refine ⟨m', ?_, ?_, ?_, hi''⟩
        · rw [serving, Proc.run_bind, hrun]
          exact hruns
        · rw [hsent, Transducer.run_cons, hstep, List.append_assoc]
          rfl
        · rw [hlast, Transducer.run_cons, hstep]
      · have hsome := hasked payload List.mem_cons_self
        rw [hnone] at hsome
        cases hsome

/-- Serving requests in two parts. -/
theorem serving_append (payloads payloads' : List ByteArray) :
    (serving L (payloads ++ payloads')).run m =
      ((serving L payloads).run m).bind fun _ m' => (serving L payloads').run m' := by
  induction payloads generalizing m with
  | nil => rfl
  | cons payload payloads ih =>
      rw [List.cons_append, serving, serving, Proc.run_bind, Proc.run_bind]
      cases (iteration L payload).run m with
      | returned _ m' => exact ih
      | raised e m' => rfl
      | stuck m' => rfl

/-- A run that goes on has asked for what the server survives. -/
theorem asked_of_run_serving (hi : Invariant m.server.store) {m' : MainState}
    (h : (serving L payloads).run m = .returned () m') :
    ∀ payload ∈ payloads, (asked L payload).isSome := by
  induction payloads generalizing m with
  | nil => exact fun _ hp => absurd hp List.not_mem_nil
  | cons payload payloads ih =>
      rw [serving, Proc.run_bind] at h
      rcases run_iteration_asked (L := L) hi payload with
        ⟨a, server', ha, hrun, -, hi'⟩ | ⟨-, e, hraised⟩
      · rw [hrun] at h
        intro p hp
        rcases List.mem_cons.mp hp with rfl | hp
        · rw [ha]
          rfl
        · exact ih (m := ⟨server', _⟩) hi' h p hp
      · rw [hraised] at h
        cases h

/-- **The server refines the server over queues.** From the start, requests that it survives are
answered as the queues do; and at the first request that it does not survive it ends, with what came
before answered as the queues do. -/
theorem server_refines_queues (L : JsonLibrary) (payloads : List ByteArray) :
    ((∀ payload ∈ payloads, (asked L payload).isSome) →
      ∃ m, (serving L payloads).run MainState.init = .returned () m ∧
        m.sent = ((queueServer L).run payloads ⟨[], []⟩).1 ∧
        m.server.store.sides = ((queueServer L).run payloads ⟨[], []⟩).2) ∧
    ∀ pre payload post, payloads = pre ++ payload :: post →
      (∀ payload ∈ pre, (asked L payload).isSome) → asked L payload = none →
      ∃ e m, (serving L payloads).run MainState.init = .raised e m ∧
        m.sent = ((queueServer L).run pre ⟨[], []⟩).1 ∧
        m.server.store.sides = ((queueServer L).run pre ⟨[], []⟩).2 := by
  have hrun : ∀ payloads, (∀ payload ∈ payloads, (asked L payload).isSome) →
      ∃ m, (serving L payloads).run MainState.init = .returned () m ∧
        m.sent = ((queueServer L).run payloads ⟨[], []⟩).1 ∧
        m.server.store.sides = ((queueServer L).run payloads ⟨[], []⟩).2 ∧
        Invariant m.server.store :=
    fun payloads hasked => run_serving (m := MainState.init) invariant_empty hasked
  constructor
  · intro hasked
    obtain ⟨m, hreturned, hsent, hsides, -⟩ := hrun payloads hasked
    exact ⟨m, hreturned, hsent, hsides⟩
  · rintro pre payload post rfl hasked hnone
    obtain ⟨m, hreturned, hsent, hsides, hi⟩ := hrun pre hasked
    rcases run_iteration_asked (L := L) hi payload with ⟨a, -, ha, -⟩ | ⟨-, e, hraised⟩
    · rw [hnone] at ha
      cases ha
    · refine ⟨e, m, ?_, hsent, hsides⟩
      rw [serving_append, hreturned, Outcome.bind_returned, serving, Proc.run_bind, hraised]
      rfl

end runs

/-- The request of a broker for a sell order of 3 at 100. -/
def sellOrder : Json :=
  .object [("command", .string "ADD_ORDER"), ("client_order_id", .string "b"),
    ("broker_order_id", .integer 2), ("symbol", .string "X"), ("side", .string "Sell"),
    ("price", .integer 100), ("quantity", .integer 3), ("type", .string "FillAndKill")]

/-- Its bytes. -/
def sellOrderText : ByteArray :=
  ("\x7b\"command\": \"ADD_ORDER\", \"client_order_id\": \"b\", \"broker_order_id\": 2, " ++
    "\"symbol\": \"X\", \"side\": \"Sell\", \"price\": 100, \"quantity\": 3, " ++
    "\"type\": \"FillAndKill\"\x7d").toUTF8

/-- The library on `addOrderText "5"`, on `sellOrderText` and on the text of a number. -/
def onOrderTexts : JsonLibrary := .nlohmann fun payload =>
  .ok (if payload.size = (addOrderText "5").size then addOrderOf 5
    else if payload.size = sellOrderText.size then sellOrder
    else .integer 7)

set_option maxRecDepth 8000 in
/-- A sale is answered as the queues do, and the text of a number ends the server behind it. -/
theorem server_refines_queues_sale :
    (∃ m, (serving onOrderTexts [addOrderText "5", sellOrderText]).run MainState.init =
        .returned () m ∧
      m.sent.map Reply.orderFinalStatusInBook = [some .WORKING, some .FILLED] ∧
      m.server.store.sides.bids.map Resting.qty = [2]) ∧
    ∃ e m, (serving onOrderTexts ([addOrderText "5", sellOrderText] ++ "7".toUTF8 ::
        [addOrderText "5"])).run MainState.init = .raised e m ∧
      m.sent.map Reply.orderFinalStatusInBook = [some .WORKING, some .FILLED] := by
  have hasked : ∀ payload ∈ [addOrderText "5", sellOrderText],
      (asked onOrderTexts payload).isSome := by
    intro payload hp
    rcases List.mem_cons.mp hp with rfl | hp
    · rfl
    · rw [List.mem_singleton.mp hp]
      rfl
  obtain ⟨m, hrun, hsent, hsides⟩ := (server_refines_queues onOrderTexts _).1 hasked
  obtain ⟨e, m', hraised, hsent', -⟩ := (server_refines_queues onOrderTexts _).2
    [addOrderText "5", sellOrderText] "7".toUTF8 [addOrderText "5"] rfl hasked rfl
  refine ⟨⟨m, hrun, ?_, ?_⟩, e, m', hraised, ?_⟩
  · rw [hsent]
    rfl
  · rw [hsides]
    rfl
  · rw [hsent']
    rfl

end FlowManager.Server
