import SweGateway.Lib.F64
import SweGateway.Lib.JsonText

/-!
# JSON values

The gateways pass `serde_json::Value`s around.  `Value` is that type: numbers are unsigned or
negative 64-bit integers or finite doubles, and the entries of an object are listed in the order of
their keys, which is how `serde_json` keeps them.

Equality is `serde_json`'s: it never identifies an integer with a double, and compares doubles as
doubles.  How a double is printed is the one thing about values that is not spelled out here; it is
the parameter `formatF64` of `Value.toJson`.
-/

namespace SweGateway

/-- A JSON number. -/
inductive Number where
  | posInt (n : UInt64)
  /-- A negative integer. -/
  | negInt (n : Int64)
  /-- A finite double. -/
  | float (f : F64)
  deriving BEq

namespace Number

/-- The number as a double, rounded where an integer has no double. -/
def asF64 : Number → F64
  | .posInt n => .ofUInt64 n
  | .negInt n => .ofInt64 n
  | .float f => f

def toJson (formatF64 : F64 → String) : Number → String
  | .posInt n => toString n.toNat
  | .negInt n => toString n.toInt
  | .float f => formatF64 f

end Number

/-- A JSON value. -/
inductive Value where
  | null
  | bool (b : Bool)
  | number (n : Number)
  | string (s : String)
  | array (elems : List Value)
  | object (entries : List (String × Value))

namespace Value

mutual

/-- Equality of values. -/
def beq : Value → Value → Bool
  | .null, .null => true
  | .bool a, .bool b => a == b
  | .number a, .number b => a == b
  | .string a, .string b => a == b
  | .array a, .array b => beqElems a b
  | .object a, .object b => beqEntries a b
  | _, _ => false

def beqElems : List Value → List Value → Bool
  | [], [] => true
  | a :: as, b :: bs => beq a b && beqElems as bs
  | _, _ => false

def beqEntries : List (String × Value) → List (String × Value) → Bool
  | [], [] => true
  | (j, a) :: as, (k, b) :: bs => j == k && beq a b && beqEntries as bs
  | _, _ => false

end

instance : BEq Value := ⟨beq⟩

/-- A value equals a string only if it is that string. -/
@[simp] theorem beq_string_iff {v : Value} {s : String} :
    (v == .string s) = true ↔ v = .string s := by
  cases v <;> simp [BEq.beq, beq]

def isNull : Value → Bool
  | .null => true
  | _ => false

def asStr : Value → Option String
  | .string s => some s
  | _ => none

theorem eq_string_of_asStr {v : Value} {s : String} (h : v.asStr = some s) : v = .string s := by
  cases v <;> simp_all [asStr]

def asF64 : Value → Option F64
  | .number n => some n.asF64
  | _ => none

def asArray : Value → Option (List Value)
  | .array elems => some elems
  | _ => none

/-! ### Serialization -/

/-- A JSON string. -/
def quote (s : String) : String := String.ofList (JsonText.Format.text.write s)

mutual

/-- The compact serialization of a value. -/
def toJson (formatF64 : F64 → String) : Value → String
  | .null => "null"
  | .bool b => toString b
  | .number n => n.toJson formatF64
  | .string s => quote s
  | .array elems => "[" ++ String.intercalate "," (toJsonElems formatF64 elems) ++ "]"
  | .object entries =>
    "\x7b" ++ String.intercalate "," (toJsonEntries formatF64 entries) ++ "\x7d"

def toJsonElems (formatF64 : F64 → String) : List Value → List String
  | [] => []
  | v :: vs => toJson formatF64 v :: toJsonElems formatF64 vs

def toJsonEntries (formatF64 : F64 → String) : List (String × Value) → List String
  | [] => []
  | (k, v) :: vs => (quote k ++ ":" ++ toJson formatF64 v) :: toJsonEntries formatF64 vs

end

end Value

end SweGateway
