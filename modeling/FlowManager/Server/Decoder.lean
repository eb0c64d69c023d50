import FlowManager.Server.Atomicity

/-!
# Which orders a request names

`Names` says what an `ADD_ORDER` request asks for: a side and a type by their names, and three
integers. The handler asks less of the request: any other side is a sell, any other type is
fill-and-kill, and a number is cut to the width of its field. So it also books orders that nobody
has asked for, and `decoder_faithful_iff` says when it does not: the request names an order
(`decoded_of_names`), or it is refused, for a field that is missing or that cannot be converted or
for its id.
-/

namespace FlowManager.Server

open FlowManager.Lib FlowManager.Book

/-! ## Naming an order -/

/-- The JSON value is the integer. -/
def Json.Is (n : ℤ) : Json → Prop
  | integer m => m = n
  | float q => q = n
  | _ => False

/-- The name of a side. -/
def sideName : Side → String
  | .Buy => "Buy"
  | .Sell => "Sell"

/-- The name of a type. -/
def orderTypeName : Book.OrderType → String
  | .GoodTillCancel => "GoodTillCancel"
  | .FillAndKill => "FillAndKill"

/-- The request names the order. -/
structure Names (req : Json) (t : OrderTerms) : Prop where
  side : req.field? "side" = some (.string (sideName t.side))
  price : ∃ v, req.field? "price" = some v ∧ v.Is t.price.toNat
  quantity : ∃ v, req.field? "quantity" = some v ∧ v.Is t.initialQuantity.toNat
  id : ∃ v, req.field? "broker_order_id" = some v ∧ v.Is t.orderId.toNat
  type : req.field? "type" = some (.string (orderTypeName t.orderType))

/-- A side is read from its name. -/
@[simp] theorem sideOf_sideName (side : Side) : sideOf (sideName side) = side := by
  cases side <;> simp [sideOf, sideName]

/-- A type is read from its name. -/
@[simp] theorem orderTypeOf_orderTypeName (type : Book.OrderType) :
    orderTypeOf (orderTypeName type) = type := by
  cases type <;> simp [orderTypeOf, orderTypeName]

/-- A 32-bit number is itself modulo `2 ^ 32`. -/
theorem ofInt_toNat32 (n : UInt32) : UInt32.ofInt n.toNat = n := by
  have hlt := n.toNat_lt
  unfold UInt32.ofInt
  rw [Int.emod_eq_of_lt (by omega) (by omega), Int.toNat_natCast, UInt32.ofNat_toNat]

/-- A 64-bit number is what its value wraps to. -/
theorem ofInt_toNat64 (n : UInt64) : UInt64.ofInt n.toNat = n := by
  have hlt := n.toNat_lt
  unfold UInt64.ofInt
  rw [Int.emod_eq_of_lt (by omega) (by omega), Int.toNat_natCast, UInt64.ofNat_toNat]

section conversions

variable (L : JsonLibrary) {v : Json}

/-- A 32-bit integer is read as it is. -/
theorem getUInt32_of_is {n : UInt32} (h : v.Is n.toNat) : L.getUInt32 v = .ok n := by
  have hlt := n.toNat_lt
  cases v with
  | integer m =>
      obtain rfl : m = n.toNat := h
      rw [L.getUInt32_integer _ ⟨by omega, by omega⟩, ofInt_toNat32]
  | float q =>
      obtain rfl : q = ((n.toNat : ℤ) : ℚ) := h
      rw [L.getUInt32_float _ (by rw [Json.truncate_intCast]; omega)
        (by rw [Json.truncate_intCast]; omega), Json.truncate_intCast,
        ofInt_toNat32]
  | null | boolean | string | array | object => exact h.elim

/-- A 64-bit integer is read as it is. -/
theorem getUInt64_of_is {n : UInt64} (h : v.Is n.toNat) : L.getUInt64 v = .ok n := by
  have hlt := n.toNat_lt
  cases v with
  | integer m =>
      obtain rfl : m = n.toNat := h
      rw [L.getUInt64_integer _ ⟨by omega, by omega⟩, ofInt_toNat64]
  | float q =>
      obtain rfl : q = ((n.toNat : ℤ) : ℚ) := h
      rw [L.getUInt64_float _ (by rw [Json.truncate_intCast]; omega)
        (by rw [Json.truncate_intCast]; omega), Json.truncate_intCast,
        ofInt_toNat64]
  | null | boolean | string | array | object => exact h.elim

/-- **An order that is named is decoded as it is.** -/
theorem decoded_of_names {req : Json} {t : OrderTerms} (h : Names req t) :
    decoded L.toLibraries req =
      .ok (Order.new t.orderType t.orderId t.side t.price t.initialQuantity) := by
  obtain ⟨price, hprice, hprice'⟩ := h.price
  obtain ⟨quantity, hquantity, hquantity'⟩ := h.quantity
  obtain ⟨id, hid, hid'⟩ := h.id
  unfold decoded
  rw [(at_eq_ok _).mpr h.side, (at_eq_ok _).mpr hprice, (at_eq_ok _).mpr hquantity,
    (at_eq_ok _).mpr hid, (at_eq_ok _).mpr h.type]
  simp only [bind, Except.bind, L.getString_string, getUInt32_of_is L hprice',
    getUInt32_of_is L hquantity', getUInt64_of_is L hid', sideOf_sideName,
    orderTypeOf_orderTypeName]
  rfl

end conversions

/-! ## Fields that cannot be converted -/

/-- The fields that are converted, with the values that the library takes for them. -/
def fieldTypes : List (String × (Json → Bool)) :=
  [("side", Json.isString), ("price", fun v => v.isNumber || v.isBoolean),
    ("quantity", fun v => v.isNumber || v.isBoolean), ("broker_order_id", Json.isNumber),
    ("type", Json.isString)]

/-- A field is missing or has a value that the library does not take for it. -/
def Json.unconvertible (req : Json) : Bool :=
  !requiredFields.all req.contains ||
    fieldTypes.any fun f => (req.field? f.1).any fun v => !f.2 v

section fields

variable (L : JsonLibrary) (req : Json)

/-- A field is converted if it is there and has a value that is taken. -/
theorem at_bind_ok_iff {α : Type} {get : Json → Except String α} {takes : Json → Bool}
    (hget : ∀ v, (∃ a, get v = .ok a) ↔ takes v = true) (key : String) :
    (∃ a, (L.at_ req key >>= get) = .ok a) ↔ ∃ v, req.field? key = some v ∧ takes v = true := by
  constructor
  · rintro ⟨a, h⟩
    obtain ⟨v, hat, ha⟩ := bind_eq_ok.mp h
    exact ⟨v, (at_eq_ok _).mp hat, (hget v).mp ⟨a, ha⟩⟩
  · rintro ⟨v, hfield, htakes⟩
    obtain ⟨a, ha⟩ := (hget v).mpr htakes
    exact ⟨a, bind_eq_ok.mpr ⟨v, (at_eq_ok _).mpr hfield, ha⟩⟩

/-- A string is read exactly where there is one. -/
theorem getString_ok_iff (v : Json) : (∃ s, L.getString v = .ok s) ↔ v.isString = true := by
  rw [Json.isString_iff]
  constructor
  · rintro ⟨s, hs⟩
    exact ⟨s, L.getString_ok v s hs⟩
  · rintro ⟨s, rfl⟩
    exact ⟨s, L.getString_string s⟩

/-- A price or quantity is read exactly from a number or a boolean. -/
theorem getUInt32_ok_iff' (v : Json) :
    (∃ n, L.getUInt32 v = .ok n) ↔ (v.isNumber || v.isBoolean) = true := by
  rw [Bool.or_eq_true]
  exact L.getUInt32_ok_iff v

/-- **The fields are converted** if each is there and has a value that is taken for it. -/
theorem decoded_ok_iff :
    (∃ o, decoded L.toLibraries req = .ok o) ↔
      ∀ f ∈ fieldTypes, ∃ v, req.field? f.1 = some v ∧ f.2 v = true := by
  have hstring := at_bind_ok_iff L req (getString_ok_iff L)
  have hnarrow := at_bind_ok_iff L req (getUInt32_ok_iff' L)
  have hwide := at_bind_ok_iff L req L.getUInt64_ok_iff
  simp only [fieldTypes, List.forall_mem_cons, ← hstring, ← hnarrow, ← hwide]
  constructor
  · rintro ⟨o, ho⟩
    obtain ⟨side, price, quantity, id, type, hside, hprice, hquantity, hid, htype, -⟩ :=
      decoded_eq_ok L.toLibraries ho
    exact ⟨⟨side, hside⟩, ⟨price, hprice⟩, ⟨quantity, hquantity⟩, ⟨id, hid⟩, ⟨type, htype⟩, by simp⟩
  · rintro ⟨⟨side, hside⟩, ⟨price, hprice⟩, ⟨quantity, hquantity⟩, ⟨id, hid⟩, ⟨type, htype⟩, -⟩
    unfold decoded
    rw [hside, hprice, hquantity, hid, htype]
    exact ⟨_, rfl⟩

/-- What is not unconvertible is converted. -/
theorem decoded_ok_of_not_unconvertible (h : req.unconvertible = false) :
    requiredFields.all req.contains = true ∧ ∃ o, decoded L.toLibraries req = .ok o := by
  unfold Json.unconvertible at h
  rw [Bool.or_eq_false_iff, Bool.not_eq_false'] at h
  obtain ⟨hrequired, htypes⟩ := h
  refine ⟨hrequired, (decoded_ok_iff L req).mpr ?_⟩
  intro f hf
  have hkey : f.1 ∈ requiredFields := by
    simp only [fieldTypes, List.mem_cons, List.not_mem_nil, or_false] at hf
    rcases hf with rfl | rfl | rfl | rfl | rfl <;> simp [requiredFields]
  obtain ⟨v, hv⟩ := Option.isSome_iff_exists.mp (List.all_eq_true.mp hrequired f.1 hkey)
  have htaken := List.any_eq_false.mp htypes f hf
  rw [hv, Option.any_some] at htaken
  exact ⟨v, hv, by simpa using htaken⟩

/-- What is converted is not unconvertible. -/
theorem not_unconvertible_of_decoded {o : Order} (hrequired : requiredFields.all req.contains = true)
    (h : decoded L.toLibraries req = .ok o) : req.unconvertible = false := by
  unfold Json.unconvertible
  rw [hrequired, Bool.not_true, Bool.false_or, List.any_eq_false]
  intro f hf
  obtain ⟨v, hv, htaken⟩ := (decoded_ok_iff L req).mp ⟨o, h⟩ f hf
  rw [hv, Option.any_some, htaken]
  simp

end fields

/-! ## When the decoder is faithful -/

/-- The id that the server takes the request for is live. -/
def LiveId (L : JsonLibrary) (server : ServerState) (req : Json) : Prop :=
  ∃ v id, req.field? "broker_order_id" = some v ∧ L.getUInt64 v = .ok id ∧
    id ∈ server.store.book.ordersMap

/-- The client's id can be logged, and the request names an order or is refused: for a field or for
a live id. -/
def Exact (L : JsonLibrary) (server : ServerState) (req : Json) : Prop :=
  (req.field? "client_order_id").all Json.isString = true ∧
    ((∃ t, Names req t) ∨ req.unconvertible = true ∨ LiveId L server req)

/-- The request is answered `OK` for the order that it names, which is what the book is handed, or
it is answered `ERROR` and the book is left alone. -/
def AnsweredFaithfully (L : JsonLibrary) (m : MainState) (payload : ByteArray) (req : Json) : Prop :=
  ∃ reply server', (iteration L payload).run m = .returned () ⟨server', m.sent ++ [reply]⟩ ∧
    ((reply.status = some .OK ∧ ∃ clientOrderId t ts, Names req t ∧
        server'.bookings = m.server.bookings ++ [⟨clientOrderId, t, ts⟩]) ∨
      (reply.status = some .ERROR ∧ Untouched m.server.store server'.store))

section faithful

variable {L : JsonLibrary} {m : MainState} {payload : ByteArray} {req : Json}

/-- An `ADD_ORDER` can be logged if its client's id can. -/
theorem loggable_iff_of_command {command : String}
    (hcommand : req.field? "command" = some (.string command)) :
    req.loggable = true ↔ (req.field? "client_order_id").all Json.isString = true := by
  cases req with
  | object fields =>
      have hfield : fields.lookup "command" = some (.string command) := hcommand
      simp [Json.loggable, Json.field?, hfield, Json.isString]
  | null | boolean | integer | float | string | array => cases hcommand

/-- The id of the order that is decoded is the id that counts. -/
theorem liveId_iff_of_decoded {server : ServerState} {o : Order}
    (h : decoded L.toLibraries req = .ok o) :
    LiveId L server req ↔ o.orderId ∈ server.store.book.ordersMap := by
  obtain ⟨-, -, -, id, -, -, -, -, hid, -, rfl⟩ := decoded_eq_ok L.toLibraries h
  obtain ⟨v, hat, hget⟩ := bind_eq_ok.mp hid
  have hfield := (at_eq_ok _).mp hat
  constructor
  · rintro ⟨v', id', hfield', hget', hlive⟩
    rw [hfield] at hfield'
    obtain rfl := Option.some.inj hfield'
    rw [hget] at hget'
    obtain rfl := Except.ok.inj hget'
    exact hlive
  · intro hlive
    exact ⟨v, id, hfield, hget, hlive⟩

/-- **The decoder is faithful** to a request if and only if the request is exact. -/
theorem decoder_faithful_iff (L : JsonLibrary) (m : MainState) (h : Reached L m)
    (payload : ByteArray) (hne : payload.size ≠ 0) (req : Json) (hparse : L.parse payload = .ok req)
    (hcommand : req.field? "command" = some (.string "ADD_ORDER")) :
    AnsweredFaithfully L m payload req ↔ Exact L m.server req := by
  have hi := h.invariant
  by_cases hlog : req.loggable = true
  · have hclient := (loggable_iff_of_command hcommand).mp hlog
    obtain ⟨command, reply, server', hvalue, hrun, hserved⟩ :=
      run_iteration_of_loggable hi hne hparse hlog
    rw [value_of_field? L.toLibraries hcommand, L.getString_string] at hvalue
    cases hvalue
    have herror : reply.status = some .ERROR → AnsweredFaithfully L m payload req := fun hstatus =>
      ⟨reply, server', hrun, Or.inr ⟨hstatus, hserved.untouched hi hstatus⟩⟩
    cases hserved with
    | missingField _ _ hmissing hstatus =>
        refine iff_of_true (herror hstatus) ⟨hclient, Or.inr (Or.inl ?_)⟩
        simp [Json.unconvertible, hmissing]
    | badField text _ _ htext hstatus =>
        refine iff_of_true (herror hstatus) ⟨hclient, Or.inr (Or.inl ?_)⟩
        by_contra hconvertible
        obtain ⟨-, o, ho⟩ := decoded_ok_of_not_unconvertible L req
          (Bool.eq_false_iff.mpr hconvertible)
        rw [htext] at ho
        cases ho
    | duplicate o _ _ _ hdecoded hid hstatus =>
        exact iff_of_true (herror hstatus)
          ⟨hclient, Or.inr (Or.inr ((liveId_iff_of_decoded hdecoded).mpr hid))⟩
    | booked o ts p store clientOrderId _ _ hrequired hdecoded hcall hstatus =>
        constructor
        · rintro ⟨reply', server'', hrun', hanswered⟩
          rw [hrun, Outcome.returned.injEq, MainState.mk.injEq, List.append_cancel_left_eq,
            List.cons.injEq] at hrun'
          obtain ⟨-, -, rfl, -⟩ := hrun'
          rcases hanswered with ⟨-, -, t, -, hnames, -⟩ | ⟨herror', -⟩
          · exact ⟨hclient, Or.inl ⟨t, hnames⟩⟩
          · rw [hstatus] at herror'
            cases herror'
        · rintro ⟨-, ⟨t, hnames⟩ | hbad | hlive⟩
          · have ho := hdecoded.symm.trans (decoded_of_names L hnames)
            obtain rfl := Except.ok.inj ho
            exact ⟨reply, _, hrun, Or.inl ⟨hstatus, clientOrderId, t, ts, hnames, rfl⟩⟩
          · rw [not_unconvertible_of_decoded L req hrequired hdecoded] at hbad
            cases hbad
          · exact absurd ((liveId_iff_of_decoded hdecoded).mp hlive) hcall.not_mem_of_added
    | cancelled _ _ _ hadd => exact absurd hadd (by simp)
    | failed _ hnot => exact absurd rfl hnot
    | informed _ hnot => exact absurd rfl hnot
  · constructor
    · rintro ⟨reply, server', hrun, -⟩
      obtain ⟨text, m', hraised⟩ := run_iteration_of_not_loggable (m := m) hne hparse
        (Bool.eq_false_iff.mpr hlog)
      rw [hraised] at hrun
      cases hrun
    · rintro ⟨hclient, -⟩
      exact absurd ((loggable_iff_of_command hcommand).mpr hclient) hlog

/-- The request of a broker for an order: `{"command": "ADD_ORDER", "client_order_id": "a",
"broker_order_id": 1, "symbol": "X", "side": "Buy", "price": 100, "quantity": n,
"type": "GoodTillCancel"}`. -/
def addOrderOf (quantity : ℤ) : Json :=
  .object [("command", .string "ADD_ORDER"), ("client_order_id", .string "a"),
    ("broker_order_id", .integer 1), ("symbol", .string "X"), ("side", .string "Buy"),
    ("price", .integer 100), ("quantity", .integer quantity), ("type", .string "GoodTillCancel")]

/-- The bytes of the request. -/
def addOrderText (quantity : String) : ByteArray :=
  ("\x7b\"command\": \"ADD_ORDER\", \"client_order_id\": \"a\", \"broker_order_id\": 1, " ++
    "\"symbol\": \"X\", \"side\": \"Buy\", \"price\": 100, \"quantity\": " ++ quantity ++
    ", \"type\": \"GoodTillCancel\"\x7d").toUTF8

/-- The request is not empty. -/
theorem addOrderText_size (quantity : String) : (addOrderText quantity).size ≠ 0 := by
  simp [addOrderText]

/-- An order of 5. -/
theorem decoder_faithful_iff_five :
    Reached (.nlohmann fun _ => .ok (addOrderOf 5)) MainState.init ∧
      (AnsweredFaithfully (.nlohmann fun _ => .ok (addOrderOf 5)) MainState.init
          (addOrderText "5") (addOrderOf 5) ↔
        Exact (.nlohmann fun _ => .ok (addOrderOf 5)) MainState.init.server (addOrderOf 5)) :=
  ⟨.init, decoder_faithful_iff _ _ .init _ (addOrderText_size _) _ rfl rfl⟩

/-- The decoder is not always faithful: of an order of `2 ^ 32 + 5` it books 5. -/
theorem decoder_faithful_fails :
    ¬ ∀ (L : JsonLibrary) (m : MainState), Reached L m → ∀ payload : ByteArray, payload.size ≠ 0 →
      ∀ req : Json, L.parse payload = .ok req →
        req.field? "command" = some (.string "ADD_ORDER") → AnsweredFaithfully L m payload req := by
  intro h
  obtain ⟨reply, server', hrun, ⟨-, -, t, -, hnames, -⟩ | ⟨herror, -⟩⟩ :=
    h (.nlohmann fun _ => .ok (addOrderOf 4294967301)) _ .init (addOrderText "4294967301")
      (addOrderText_size _) (addOrderOf 4294967301) rfl rfl
  · obtain ⟨v, hv, hquantity⟩ := hnames.quantity
    obtain rfl : .integer 4294967301 = v := Option.some.inj hv
    have heq : (4294967301 : ℤ) = t.initialQuantity.toNat := hquantity
    have hlt := t.initialQuantity.toNat_lt
    omega
  · rw [run_iteration_of_parse (addOrderText_size _) rfl] at hrun
    have hstatus := congrArg (fun out => out.state.sent.map Reply.status) hrun
    have hok : [some ReplyStatus.OK] = [reply.status] := hstatus
    rw [herror] at hok
    cases hok

end faithful

end FlowManager.Server
