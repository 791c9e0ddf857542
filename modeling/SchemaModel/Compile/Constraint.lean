import SchemaModel.Model.Class
import SchemaModel.Settings.Basic
import SchemaModel.Keyword
/-!
# Schema constraints as member metadata

The constraints a property schema declares become tags of its member: `pattern`, `minimum` and
`maximum` (as doubles), `minItems`, `maxItems`, `minLength` and `maxLength` (as non-negative
integers), and `valid` for an object or array schema, whose value must be validated in turn. The
settings can turn these tags off. A `default` is kept as the member's default value in any case.
-/

namespace SchemaModel

namespace Constraint

/-- The tags a property schema's constraints give, in the order they are added. -/
def tags (node : Value) : List Tag :=
  let num (key : String) : Option Float := match node.get? key with
    | some (.number n) => some n.toFloat
    | _ => none
  let pattern := ((node.get? "pattern").bind Value.asString?).map Tag.pattern
  let composite := Keyword.isType node "object" || Keyword.isType node "array"
  [pattern, (num "minimum").map Tag.minimum, (num "maximum").map Tag.maximum,
    (Keyword.unsigned node "minItems").map Tag.minItems,
    (Keyword.unsigned node "maxItems").map Tag.maxItems,
    (Keyword.unsigned node "minLength").map Tag.minLength,
    (Keyword.unsigned node "maxLength").map Tag.maxLength,
    if composite then some Tag.valid else none].filterMap id

/-- A member with the constraints of its schema and its default value. -/
def apply (settings : Settings) (m : Member) (node : Value) : Member :=
  let m := match node.get? "default" with
    | some v => { m with defaultValue := some v }
    | none => m
  if settings.includeConstraints then { m with tags := m.tags.insertAll (tags node) } else m

end Constraint

end SchemaModel
