import SchemaModel.Json.Value
/-!
# Member types

The type of a generated member: a primitive named by its schema type (`string`, `integer`,
`number`, `boolean`, or `any`), a reference to a generated class, a collection of a type, or a map
from strings to a type. `display` writes them as `T`, `[T]` and `{string: T}`.
-/

namespace SchemaModel

/-- The type of a generated member. -/
inductive MemberType where
  | primitive (name : String)
  | reference (className : String)
  | collection (item : MemberType)
  | map (value : MemberType)
  deriving DecidableEq, Repr, Inhabited

namespace MemberType

/-- The type of a value about which nothing is known. -/
def any : MemberType := .primitive "any"

/-- Whether the type is the boolean primitive. -/
def isBoolean : MemberType → Bool
  | .primitive name => name == "boolean"
  | _ => false

/-- The class a type names, looking through collections and maps. -/
def referencedClass : MemberType → Option String
  | .primitive _ => none
  | .reference name => some name
  | .collection t => t.referencedClass
  | .map t => t.referencedClass

/-- How a type is written: its name, `[T]` for a collection, `{string: T}` for a map. -/
def display : MemberType → String
  | .primitive name => name
  | .reference name => name
  | .collection t => "[" ++ t.display ++ "]"
  | .map t => "\x7bstring: " ++ t.display ++ "\x7d"

/-- The JSON form: the kind of type and what it is of. -/
def toValue : MemberType → Value
  | .primitive name => .object [("kind", .string "primitive"), ("of", .string name)]
  | .reference name => .object [("kind", .string "type_reference"), ("of", .string name)]
  | .collection t => .object [("kind", .string "collection"), ("of", t.toValue)]
  | .map t => .object [("kind", .string "map_type"), ("of", t.toValue)]

end MemberType

end SchemaModel
