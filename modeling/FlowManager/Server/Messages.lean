import FlowManager.Book.Order
import Mathlib.Data.Rat.Defs

/-!
# Requests and replies

What travels between the broker and the order book server. A request is a JSON value; a reply is
a JSON object whose fields the server sets one by one, so it is a record of optional fields.

The text in between is left out: a request arrives as the JSON value that was sent. The JSON
library of the server is a third party, so `Libraries` has the conversions the server calls as
parameters and states of them what is documented for the values the broker sends: a string is read
back, and an integer of 64 bits is converted modulo `2 ^ w`.
-/

namespace FlowManager.Server

open FlowManager.Book

/-! ## JSON values -/

/-- A JSON value. A number is an integer or has a fraction or an exponent. -/
inductive Json where
  | null
  | boolean (b : Bool)
  | integer (n : ℤ)
  | float (q : ℚ)
  | string (s : String)
  | array (elements : List Json)
  | object (fields : List (String × Json))

namespace Json

/-- The value of a field of an object: `operator[]` on a field that is present. -/
def field? (key : String) : Json → Option Json
  | object fields => fields.lookup key
  | _ => none

/-- `json::contains`. -/
def contains (j : Json) (key : String) : Bool := (j.field? key).isSome

/-- `json::is_number`. -/
def isNumber : Json → Bool
  | integer _ | float _ => true
  | _ => false

/-- An integer that the library stores as an integer. -/
def Fits (n : ℤ) : Prop := -2 ^ 63 ≤ n ∧ n < 2 ^ 64

/-- Whether a number fits is decided. -/
instance (n : ℤ) : Decidable (Fits n) := inferInstanceAs (Decidable (_ ∧ _))

end Json

/-- The functions of `nlohmann::json` that the server calls, with what they are documented to do, and
the texts of library exceptions. An error carries the text of `what()`. -/
structure Libraries where
  /-- `get<std::string>()`. -/
  getString : Json → Except String String
  /-- `get<std::uint32_t>()`. -/
  getUInt32 : Json → Except String UInt32
  /-- `get<std::uint64_t>()`. -/
  getUInt64 : Json → Except String UInt64
  /-- `get<int>()`. -/
  getInt : Json → Except String ℤ
  /-- The `type_error` of `value` on a value that is not an object. -/
  valueTypeError : String
  /-- The `out_of_range` of `at` on a key that is missing. -/
  atOutOfRange : String → String
  /-- The `std::out_of_range` of a container's `at`. -/
  containerOutOfRange : String
  getString_string : ∀ s, getString (.string s) = .ok s
  getUInt32_integer : ∀ n, Json.Fits n → getUInt32 (.integer n) = .ok (UInt32.ofInt n)
  getUInt64_integer : ∀ n, Json.Fits n → getUInt64 (.integer n) = .ok (UInt64.ofInt n)
  getInt_integer : ∀ n, Json.Fits n → getInt (.integer n) = .ok (Int.bmod n (2 ^ 32))

namespace Libraries

variable (L : Libraries)

/-- `json::value(key, fallback)`, with the conversion to the type of the fallback. -/
def value {α : Type} (get : Json → Except String α) (j : Json) (key : String) (fallback : α) :
    Except String α :=
  match j with
  | .object fields =>
      match fields.lookup key with
      | some v => get v
      | none => .ok fallback
  | _ => .error L.valueTypeError

/-- `json::at(key)`. -/
def at_ (j : Json) (key : String) : Except String Json :=
  match j.field? key with
  | some v => .ok v
  | none => .error (L.atOutOfRange key)

/-- The conversions on strings and on integers, with the error texts of the library for the other
values that the server may meet. -/
def nlohmann : Libraries where
  getString
    | .string s => .ok s
    | _ => .error "[json.exception.type_error.302] type must be string"
  getUInt32
    | .integer n => .ok (UInt32.ofInt n)
    | _ => .error "[json.exception.type_error.302] type must be number"
  getUInt64
    | .integer n => .ok (UInt64.ofInt n)
    | _ => .error "[json.exception.type_error.302] type must be number"
  getInt
    | .integer n => .ok (Int.bmod n (2 ^ 32))
    | _ => .error "[json.exception.type_error.302] type must be number"
  valueTypeError := "[json.exception.type_error.306] cannot use value()"
  atOutOfRange key := "[json.exception.out_of_range.403] key '" ++ key ++ "' not found"
  containerOutOfRange := "_Map_base::at"
  getString_string _ := rfl
  getUInt32_integer _ _ := rfl
  getUInt64_integer _ _ := rfl
  getInt_integer _ _ := rfl

end Libraries

/-! ## Replies -/

/-- The value of `status`. -/
inductive ReplyStatus where
  | OK
  | ERROR
  deriving DecidableEq, Repr

/-- The value of `order_final_status_in_book`. -/
inductive BookStatus where
  | FILLED
  | REJECTED_BY_BOOK
  | WORKING
  | UNKNOWN
  deriving DecidableEq, Repr

/-- The value of `final_status`. -/
inductive CancelStatus where
  | CANCELLED
  | CANCEL_REJECTED
  deriving DecidableEq, Repr

/-- One leg of a trade in a reply.
Source: `order_book_server.cpp`, lines 124-136 -/
structure FillInfo where
  orderIdFilled : ℤ
  price : ℤ
  tradedQuantity : ℤ
  sideOfOriginalOrder : Side
  deriving DecidableEq, Repr

/-- One level in a reply.
Source: `order_book_server.cpp`, lines 179, 183 -/
structure LevelReply where
  price : ℤ
  quantity : ℤ
  deriving DecidableEq, Repr

/-- The reply object: a field is there once the server has set it.
Source: `order_book_server.cpp`, `res_json` -/
structure Reply where
  status : Option ReplyStatus := none
  message : Option String := none
  trades : Option (List FillInfo) := none
  orderFinalStatusInBook : Option BookStatus := none
  clientOrderId : Option String := none
  brokerOrderId : Option ℤ := none
  finalStatus : Option CancelStatus := none
  bids : Option (List LevelReply) := none
  asks : Option (List LevelReply) := none
  reply : Option String := none
  deriving DecidableEq, Repr

end FlowManager.Server
