import FlowManager.Server.Messages

/-!
# The JSON library on any value

`Libraries` says of `nlohmann::json` what the requests of the broker need. Another client may send
any bytes. `JsonLibrary` adds the parser, and which of the conversions throw on which values:

* `get<std::string>()` takes strings;
* `get<std::uint64_t>()` is one of the library's own number types and takes numbers;
* `get<std::uint32_t>()` and `get<int>()` take numbers and booleans;
* a number with a fraction loses it.

The text of a `parse_error` quotes the bytes that were read last as they are, so it is a byte array
here: it need not be text.
-/

namespace FlowManager.Server

namespace Json

/-- `static_cast` of a floating-point number to an integer type, where it has a value: the fraction
is dropped. -/
def truncate (q : ℚ) : ℤ := q.num.tdiv q.den

/-- An integer is not truncated. -/
@[simp] theorem truncate_intCast (n : ℤ) : truncate n = n := by
  simp [truncate]

/-- `json::is_boolean`. -/
def isBoolean : Json → Bool
  | boolean _ => true
  | _ => false

/-- `json::is_string`. -/
def isString : Json → Bool
  | string _ => true
  | _ => false

/-- What is a string is one. -/
theorem isString_iff {j : Json} : j.isString = true ↔ ∃ s, j = .string s := by
  cases j <;> simp [isString]

/-- `json::type_name`. -/
def typeName : Json → String
  | null => "null"
  | boolean _ => "boolean"
  | integer _ | float _ => "number"
  | string _ => "string"
  | array _ => "array"
  | object _ => "object"

end Json

/-- How `json::parse` fails. -/
inductive ParseFailure where
  /-- `json::parse_error`, with the bytes of `what()`. -/
  | parseError (what : ByteArray)
  /-- Another exception of the library: a number that overflows is an `out_of_range`. -/
  | other (what : String)

/-- The functions of `nlohmann::json` that the server calls, on any bytes and any value. -/
structure JsonLibrary extends Libraries where
  /-- `json::parse`. -/
  parse : ByteArray → Except ParseFailure Json
  /-- The `type_error` of `dump` on a string that is not UTF-8. -/
  dumpTypeError : String
  getString_ok : ∀ j s, getString j = .ok s → j = .string s
  getUInt32_ok_iff : ∀ j, (∃ n, getUInt32 j = .ok n) ↔ j.isNumber = true ∨ j.isBoolean = true
  getUInt64_ok_iff : ∀ j, (∃ n, getUInt64 j = .ok n) ↔ j.isNumber = true
  getInt_number : ∀ j, j.isNumber = true → ∃ n, getInt j = .ok n
  getUInt32_float : ∀ q, 0 ≤ Json.truncate q → Json.truncate q < 2 ^ 32 →
    getUInt32 (.float q) = .ok (UInt32.ofInt (Json.truncate q))
  getUInt64_float : ∀ q, 0 ≤ Json.truncate q → Json.truncate q < 2 ^ 64 →
    getUInt64 (.float q) = .ok (UInt64.ofInt (Json.truncate q))

namespace JsonLibrary

/-- The text of the `type_error` of a conversion. -/
def typeError (expected : String) (j : Json) : String :=
  "[json.exception.type_error.302] type must be " ++ expected ++ ", but is " ++ j.typeName

/-- A conversion that takes numbers and booleans. -/
def getArithmetic {α : Type} (ofInt : ℤ → α) : Json → Except String α
  | .integer n => .ok (ofInt n)
  | .float q => .ok (ofInt (Json.truncate q))
  | .boolean b => .ok (ofInt (if b then 1 else 0))
  | j => .error (typeError "number" j)

/-- The library, for a parser that is given. -/
def nlohmann (parse : ByteArray → Except ParseFailure Json) : JsonLibrary where
  getString
    | .string s => .ok s
    | j => .error (typeError "string" j)
  getUInt32 := getArithmetic UInt32.ofInt
  getUInt64
    | .integer n => .ok (UInt64.ofInt n)
    | .float q => .ok (UInt64.ofInt (Json.truncate q))
    | j => .error (typeError "number" j)
  getInt := getArithmetic fun n => Int.bmod n (2 ^ 32)
  valueTypeError := "[json.exception.type_error.306] cannot use value()"
  atOutOfRange key := "[json.exception.out_of_range.403] key '" ++ key ++ "' not found"
  containerOutOfRange := "_Map_base::at"
  parse := parse
  dumpTypeError := "[json.exception.type_error.316] invalid UTF-8 byte"
  getString_string _ := rfl
  getUInt32_integer _ _ := rfl
  getUInt64_integer _ _ := rfl
  getInt_integer _ _ := rfl
  getString_ok j s h := by
    cases j with
    | string _ => exact congrArg Json.string (Except.ok.inj h)
    | null | boolean | integer | float | array | object => cases h
  getUInt32_ok_iff j := by
    cases j <;> simp [getArithmetic, Json.isNumber, Json.isBoolean]
  getUInt64_ok_iff j := by
    cases j <;> simp [Json.isNumber]
  getInt_number j h := by
    cases j <;> simp [getArithmetic, Json.isNumber] at h ⊢
  getUInt32_float _ _ _ := rfl
  getUInt64_float _ _ _ := rfl

end JsonLibrary

end FlowManager.Server
