import SchemaModel.Json.Write
import SchemaModel.Decimal.Binary
import SchemaModel.Text.Blank
/-!
# Reading schema keywords

Schemas written for forms are loose about types: a flag may be the string `"true"`, an order may
be a string or a fraction. These readers take a keyword's value leniently and never fail:
anything they cannot use gives their neutral answer.
-/

namespace SchemaModel.Keyword

open Decimal

/-- The keyword holding a reference to another schema. -/
def refKey : String := "$ref"

/-- The member name that is never ordered nor mutable. -/
def localId : String := "_localId"

/-- The reference a node makes, if its `$ref` is a string. -/
def refOf (node : Value) : Option String :=
  (node.get? refKey).bind Value.asString?

/-- The reference a node makes itself, or else the reference its `items` make. -/
def indirectionOf (node : Value) : Option String :=
  match refOf node with
  | some r => some r
  | none => (node.get? "items").bind refOf

/-- The text of a value: a string as it is, a flag or a number as JSON writes it, and nothing
for null, arrays and objects. -/
def text : Value → String
  | .string s => s
  | .bool b => if b then "true" else "false"
  | .number n => n.write
  | _ => ""

/-- The text of a keyword, unless it is absent or empty. -/
def nonEmptyText (node : Value) (key : String) : Option String :=
  match (node.get? key).map text with
  | some s => if s.isEmpty then none else some s
  | none => none

/-- A flag: a boolean, a string that reads `true` in any case once trimmed, or a non-zero
number. -/
def boolean : Value → Bool
  | .bool b => b
  | .string s => (Blank.trim s).toList.map Char.toLower == "true".toList
  | .number n => n.toFloat != 0
  | _ => false

/-- The integer a text spells: an optional sign and at least one decimal digit, within the
signed 64-bit range. -/
def parseInt64? (s : String) : Option Int :=
  let (negative, digits) := match s.toList with
    | '-' :: rest => (true, rest)
    | '+' :: rest => (false, rest)
    | cs => (false, cs)
  if digits.isEmpty || !digits.all Char.isDigit then none
  else
    let n : Nat := digits.foldl (fun n c => 10 * n + (c.toNat - '0'.toNat)) 0
    let v : Int := if negative then -(n : Int) else n
    if -(Nat.pow 2 63 : Int) ≤ v ∧ v < (Nat.pow 2 63 : Int) then some v else none

/-- An integer: a number (a fraction rounded toward zero, clamped to 64 bits) or a trimmed text
that spells one; anything else, or no value, gives the default. -/
def integerOr (value : Option Value) (default : Int) : Int :=
  match value with
  | some (.number n) =>
    match n.toInt64? with
    | some i => i
    | none => truncToInt64 n.toFloat
  | some (.string s) => (parseInt64? (Blank.trim s)).getD default
  | _ => default

/-- A non-negative integer keyword: an integer, or a double that is a non-negative integer
(clamped to 64 bits). -/
def unsigned (node : Value) (key : String) : Option Nat :=
  match node.get? key with
  | some (.number n) =>
    match n.toUInt64? with
    | some u => some u
    | none =>
      let f := n.toFloat
      if f ≥ 0 && isIntegral f then some (truncToUInt64 f) else none
  | _ => none

/-- The declared type: the `type` string, or of a list of types the first string other than
`null`, else a first entry that is a string. -/
def declaredType (node : Value) : Option String :=
  match node.get? "type" with
  | some (.string s) => some s
  | some (.array types) =>
    match (types.filterMap Value.asString?).find? (· != "null") with
    | some t => some t
    | none => types.head?.bind Value.asString?
  | _ => none

/-- Whether the declared type is `ty`. -/
def isType (node : Value) (ty : String) : Bool :=
  declaredType node == some ty

end SchemaModel.Keyword
