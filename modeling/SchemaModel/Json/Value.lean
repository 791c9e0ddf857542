/-!
# JSON values

The value tree every other part of the library reads: schemas, configuration text and requests
are all JSON. An object is a list of fields in the order the text gave them, since that order
decides the order of generated members and classes; a key occurs at most once, the later value
of a repeated key taking the place of the first.

Numbers keep the kind they were read as: a negative integer that fits in 64 signed bits, a
non-negative integer below `2^64`, or a double. The readers of schema keywords convert between
the kinds by the rules in `Number.toInt64?`, `Number.toUInt64?` and `Number.toFloat`.
-/

namespace SchemaModel

/-- A JSON number in one of the three kinds a reader produces. -/
inductive Number where
  /-- A negative integer in `[-2^63, -1]`. -/
  | negative (value : Int)
  /-- A non-negative integer below `2^64`. -/
  | natural (value : Nat)
  /-- Any other number, as the nearest double. -/
  | float (value : Float)
  deriving Inhabited

/-- A JSON value; objects keep their fields in order. -/
inductive Value where
  | null
  | bool (value : Bool)
  | number (value : Number)
  | string (value : String)
  | array (items : List Value)
  | object (fields : List (String × Value))
  deriving Inhabited

namespace Number

/-- The largest signed 64-bit integer. -/
def int64Max : Nat := Nat.pow 2 63 - 1

/-- The largest unsigned 64-bit integer. -/
def uint64Max : Nat := Nat.pow 2 64 - 1

/-- The number as a signed 64-bit integer, when it is an integer in range. -/
def toInt64? : Number → Option Int
  | .negative n => some n
  | .natural n => if n ≤ int64Max then some n else none
  | .float _ => none

/-- The number as an unsigned 64-bit integer, when it is a non-negative integer. -/
def toUInt64? : Number → Option Nat
  | .negative _ => none
  | .natural n => some n
  | .float _ => none

/-- The number as a double, rounding an integer to the nearest one. -/
def toFloat : Number → Float
  | .negative n => Float.ofInt n
  | .natural n => n.toUInt64.toFloat
  | .float x => x

end Number

namespace Value

/-- The value of a field of an object; no other value has fields. -/
def get? (v : Value) (key : String) : Option Value :=
  match v with
  | .object fields => fields.lookup key
  | _ => none

/-- The text of a string value. -/
def asString? : Value → Option String
  | .string s => some s
  | _ => none

/-- The fields of an object. -/
def asObject? : Value → Option (List (String × Value))
  | .object fields => some fields
  | _ => none

/-- The items of an array. -/
def asArray? : Value → Option (List Value)
  | .array items => some items
  | _ => none

/-- Whether the value is an object. -/
def isObject : Value → Bool
  | .object _ => true
  | _ => false

/-- Whether the value is null. -/
def isNull : Value → Bool
  | .null => true
  | _ => false

mutual

/-- The number of values in a value, itself included. -/
def size : Value → Nat
  | .array items => 1 + sizeItems items
  | .object fields => 1 + sizeFields fields
  | _ => 1

/-- The number of values in a list of values. -/
def sizeItems : List Value → Nat
  | [] => 0
  | v :: rest => v.size + sizeItems rest

/-- The number of values in the values of a field list. -/
def sizeFields : List (String × Value) → Nat
  | [] => 0
  | (_, v) :: rest => v.size + sizeFields rest

end

mutual

/-- The number of string values in a value. -/
def textCount : Value → Nat
  | .string _ => 1
  | .array items => textCountItems items
  | .object fields => textCountFields fields
  | _ => 0

/-- The number of string values in a list of values. -/
def textCountItems : List Value → Nat
  | [] => 0
  | v :: rest => v.textCount + textCountItems rest

/-- The number of string values in the values of a field list. -/
def textCountFields : List (String × Value) → Nat
  | [] => 0
  | (_, v) :: rest => v.textCount + textCountFields rest

end

end Value

/-- Sets a field of an object's field list: a new key goes last, a present key keeps its place and
takes the new value. -/
def Fields.insert : List (String × Value) → String → Value → List (String × Value)
  | [], k, v => [(k, v)]
  | (k', v') :: rest, k, v =>
    if k' = k then (k, v) :: rest else (k', v') :: Fields.insert rest k v

end SchemaModel
