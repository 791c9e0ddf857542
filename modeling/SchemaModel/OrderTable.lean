import SchemaModel.Keyword
/-!
# Presentation order of properties

A form shows the properties of a class in the order their `propertyOrder` keywords give: each
property's order is read by `Keyword.integerOr`, falling back to a default, and the properties
are sorted by order, ties kept in document order. The member `_localId` is never shown.
-/

namespace SchemaModel

/-- A property with its presentation order and its position among the shown properties. -/
structure OrderEntry where
  order : Int
  position : Nat
  name : String
  deriving Repr, Inhabited, DecidableEq

/-- The shown properties of a class, in presentation order. -/
structure OrderTable where
  entries : List OrderEntry
  deriving Inhabited

namespace OrderTable

/-- The shown properties of a `properties` object, in document order, with their orders. -/
def discover (fields : List (String × Value)) (default : Int) : List OrderEntry :=
  let shown := fields.filter (·.1 != Keyword.localId)
  (List.range shown.length).zip shown |>.map fun (i, (name, node)) =>
    ⟨Keyword.integerOr (node.get? "propertyOrder") default, i, name⟩

/-- The table of a `properties` value; a value other than an object shows nothing. -/
def ofProperties (properties : Value) (default : Int) : OrderTable :=
  match properties with
  | .object fields => ⟨(discover fields default).mergeSort fun a b => a.order ≤ b.order⟩
  | _ => ⟨[]⟩

/-- The property names in presentation order. -/
def names (t : OrderTable) : List String := t.entries.map (·.name)

/-- The number of shown properties. -/
def size (t : OrderTable) : Nat := t.entries.length

end OrderTable

end SchemaModel
